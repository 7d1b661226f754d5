import Montage.Proofs.ServiceHeaders

/-! What users are told of failures of the service itself. Where details are kept from them all such failures are told in
the same words, whatever failed. Whether they are kept depends on the exact word in the environment, so that a service
which takes itself to run for its users may tell them everything. -/

namespace Montage.Proofs.ServiceDiscretion
open Http Service JobLogic ServiceHeaders

def withheld : Response :=
  .json 500 (.ofMembers [("detail", .ofText "An internal error occurred")])

/-- A response that tells nothing of a failure of the service itself. -/
def Discreet (response : Response) : Prop :=
  response.status = 500 → response = withheld

section Refusals
variable {settings : Settings} {environment : Environment}

theorem hidesDetails_iff : (Settings.ofEnvironment environment).hidesDetails = true ↔
    environment.get? "ENVIRONMENT" = some "production" := by
  rw [Settings.hidesDetails, decide_eq_true_iff, Settings.ofEnvironment]
  dsimp only
  cases environment.get? "ENVIRONMENT" with
  | none => decide
  | some value => rw [Option.getD_some, Option.some.injEq]

theorem isProduction_iff : (Settings.ofEnvironment environment).isProduction = true ↔
    ∃ value, environment.get? "ENVIRONMENT" = some value ∧ value.toLower = "production" := by
  rw [Settings.isProduction, decide_eq_true_iff, Settings.ofEnvironment]
  dsimp only
  cases environment.get? "ENVIRONMENT" with
  | none => exact iff_of_false (by decide +kernel) (by simp)
  | some value => simp

theorem refusal_discreet (hides : settings.hidesDetails = true) (refusal : Refusal) :
    Discreet (refusal.response settings) := by
  intro failed
  have failed : refusal.status = 500 := failed
  rw [Refusal.response, Refusal.detail, if_pos ⟨failed, hides⟩, failed, withheld]

theorem refusal_told (shows : settings.hidesDetails = false) (refusal : Refusal) :
    refusal.response settings = .json refusal.status (.ofMembers [("detail", .ofText refusal.message)]) := by
  rw [Refusal.response, Refusal.detail, if_neg (by simp [shows])]

private theorem mistake_told {refusal : Refusal} (mistake : refusal.status ≠ 500) (settings : Settings) :
    refusal.response settings = .json refusal.status (.ofMembers [("detail", .ofText refusal.message)]) := by
  rw [Refusal.response, Refusal.detail, if_neg fun both => mistake both.1]

/-- Failures cannot be told apart if and only if details are kept back. -/
theorem alike_iff : (∀ one two : Refusal, one.status = 500 → two.status = 500 →
    one.response settings = two.response settings) ↔ settings.hidesDetails = true := by
  constructor
  · intro alike
    cases shows : settings.hidesDetails with
    | true => rfl
    | false =>
      have same := alike (.store (.disk .isDirectory)) (.store (.disk .notDirectory)) rfl rfl
      rw [refusal_told shows, refusal_told shows] at same
      exact absurd same (by decide +kernel)
  · intro hides one two first second
    rw [refusal_discreet hides one first, refusal_discreet hides two second]

end Refusals

section Exchanges

/-- What is known of the answer of an exchange, whatever was counted before and on whatever machine. -/
def Answers (exchange : Exchange α) (good : α → Prop) : Prop :=
  ∀ tally machine, good ((exchange.run tally).run machine).1.1

namespace Answers
variable {good : α → Prop}

theorem pure {value : α} (holds : good value) : Answers (Pure.pure value) good :=
  fun _ _ => holds

theorem bind {exchange : Exchange β} {next : β → Exchange α} {middle : β → Prop} (first : Answers exchange middle)
    (later : ∀ value, middle value → Answers (next value) good) : Answers (exchange >>= next) good := by
  intro tally machine
  have steps : (exchange >>= next).run tally = (exchange.run tally).bind fun result => (next result.1).run result.2 := rfl
  rw [steps, run_bind]
  exact later _ (first tally machine) _ _

theorem any (exchange : Exchange α) : Answers exchange fun _ => True :=
  fun _ _ => trivial

theorem after {exchange : Exchange β} {next : β → Exchange α} (later : ∀ value, Answers (next value) good) :
    Answers (exchange >>= next) good :=
  (any exchange).bind fun value _ => later value

end Answers

end Exchanges

section Serving
variable {service : Service} {request : Http.Request}

private theorem renderProject_discreet (hides : service.settings.hidesDetails = true) (project : String)
    (body : Montage.Request) : Answers (service.renderProject project body) Discreet := by
  refine .after fun gathered => ?_
  cases gathered with
  | error refusal => exact .pure (refusal_discreet hides refusal)
  | ok inputs => exact .after fun _ => .after fun _ => .after fun _ => .pure nofun

private theorem readBody_status {response : Response} (refused : readBody service.settings request = .error response) :
    response.status ≠ 500 := by
  unfold readBody at refused
  split at refused
  · cases refused
    exact nofun
  · split at refused
    · cases refused
      exact nofun
    · split at refused <;> cases refused <;> exact nofun

private theorem answerRender_discreet (hides : service.settings.hidesDetails = true) (segment : String) :
    Answers (service.answerRender segment request) Discreet := by
  unfold answerRender
  split
  · exact .pure nofun
  · split
    next response refused => exact .pure fun failed => absurd failed (readBody_status refused)
    next => exact renderProject_discreet hides _ _

private theorem dispatch_discreet (hides : service.settings.hidesDetails = true) : Answers (service.dispatch request)
    fun response => response.status = 500 → response = withheld ∧ request.method = "POST" := by
  unfold dispatch
  split
  · exact .pure nofun
  · split
    · exact .pure nofun
    next endpoint found =>
      split
      next offered =>
        cases endpoint with
        | render segment =>
          have method : request.method = "POST" := by simpa [Endpoint.methods] using offered
          exact fun tally machine failed => ⟨answerRender_discreet hides segment tally machine failed, method⟩
        | health => exact .after fun _ => .pure nofun
        | readiness =>
          refine .after fun engine => .after fun prober => ?_
          cases engine <;> cases prober <;> exact .pure nofun
        | metrics => exact .after fun _ => .pure nofun
      next => exact .pure nofun

private theorem withAllowed_told (endpoint : Option Endpoint) (method : String) (response : Response) :
    (withAllowed endpoint method response).status = response.status ∧
      (withAllowed endpoint method response).body = response.body := by
  unfold withAllowed
  split
  · exact ⟨rfl, rfl⟩
  · split <;> exact ⟨rfl, rfl⟩

private theorem finished_told (name : String) (response : Response) :
    (finished service request name response).status = response.status ∧
      (request.method ≠ "HEAD" → (finished service request name response).body = response.body) := by
  have set (response : Response) (headers : List (String × String)) :
      (response.setAll headers).status = response.status ∧ (response.setAll headers).body = response.body := by
    induction headers generalizing response with
    | nil => exact ⟨rfl, rfl⟩
    | cons header rest ih => exact ih (response.set header.1 header.2)
  have allowed := withAllowed_told (service.endpoint request) request.method
  unfold finished withoutBody
  dsimp only
  split
  next headed =>
    refine ⟨?_, fun other => absurd headed.1 other⟩
    exact (allowed _).1.trans ((set _ _).1.trans (set response securityHeaders).1)
  next =>
    refine ⟨?_, fun _ => ?_⟩
    · exact (allowed _).1.trans ((set _ _).1.trans (set response securityHeaders).1)
    · exact (allowed _).2.trans ((set _ _).2.trans (set response securityHeaders).2)

private theorem serve_discreet (hides : service.settings.hidesDetails = true) : Answers (service.serve request)
    fun response => response.status = 500 → response.body = withheld.body := by
  by_cases beforehand : request.method = "OPTIONS"
  · intro tally machine failed
    rw [serve_preflight service request beforehand, (withAllowed_told _ _ _).1] at failed
    cases failed
  · have counted : Answers (service.counted request)
        fun response => response.status = 500 → response = withheld ∧ request.method = "POST" :=
      .after fun _ => (dispatch_discreet hides).bind fun _ known => .after fun _ => .pure known
    rw [serve, if_neg beforehand]
    refine .after fun name => counted.bind fun response known => .pure fun failed => ?_
    obtain ⟨status, body⟩ : _ ∧ _ := @finished_told service request name response
    obtain ⟨rfl, posted⟩ := known (status.symm.trans failed)
    exact body (by rw [posted]; decide)

end Serving

/-- Failures of the service itself are all told in the same words if and only if the environment says `production`, in
just these letters; then no response, to whatever request and on whatever machine, tells more of one. With any other
value every detail is told, also where the service takes itself to run for its users because the word is there in other
letters. What clients did wrong themselves they are told in the same words everywhere. -/
theorem failures_withheld (environment : Environment) :
    ((∀ one two : Refusal, one.status = 500 → two.status = 500 → one.response (.ofEnvironment environment) =
        two.response (.ofEnvironment environment)) ↔ environment.get? "ENVIRONMENT" = some "production") ∧
      (environment.get? "ENVIRONMENT" = some "production" → ∀ (service : Service) (request : Http.Request) tally machine,
        service.settings = .ofEnvironment environment →
          (((service.serve request).run tally).run machine).1.1.status = 500 →
            (((service.serve request).run tally).run machine).1.1.body = withheld.body) ∧
      (environment.get? "ENVIRONMENT" ≠ some "production" → ∀ refusal : Refusal,
        refusal.response (.ofEnvironment environment) =
          .json refusal.status (.ofMembers [("detail", .ofText refusal.message)])) ∧
      ((Settings.ofEnvironment environment).isProduction = true ∧ environment.get? "ENVIRONMENT" ≠ some "production" ↔
        ∃ value, environment.get? "ENVIRONMENT" = some value ∧ value ≠ "production" ∧ value.toLower = "production") ∧
      ∀ (refusal : Refusal) (other : Environment), refusal.status ≠ 500 →
        refusal.response (.ofEnvironment environment) = refusal.response (.ofEnvironment other) := by
  refine ⟨?_, ?_, ?_, ?_, ?_⟩
  · rw [alike_iff, hidesDetails_iff]
  · intro production service request tally machine same
    exact serve_discreet (by rw [same]; exact hidesDetails_iff.mpr production) tally machine
  · intro other refusal
    exact refusal_told (Bool.eq_false_iff.mpr (mt hidesDetails_iff.mp other)) refusal
  · rw [isProduction_iff]
    constructor
    · rintro ⟨⟨value, given, spelled⟩, other⟩
      exact ⟨value, given, fun same => other (same ▸ given), spelled⟩
    · rintro ⟨value, given, other, spelled⟩
      refine ⟨⟨value, given, spelled⟩, fun same => other ?_⟩
      exact Option.some.inj (given.symm.trans same)
  · intro refusal other mistake
    rw [mistake_told mistake, mistake_told mistake]

def call : Http.Request where
  method := "POST"
  target := "/projects/p1/render"
  headers := [("content-type", "application/json")]
  body := "\x7b\"video_file_id\":\"v1\"\x7d".toUTF8

def blocked : Machine where
  disk := ⟨[(["data"], .directory), (["data", "projects"], .directory), (["data", "projects", "p1.json"], .directory)]⟩

/-- A service that fails, and withholds why; and one that would tell it. -/
theorem blocked_withheld :
    let environment : Environment := [("ENVIRONMENT", "production")]
    let service : Service := { settings := .ofEnvironment environment, store := ⟨"/data"⟩ }
    environment.get? "ENVIRONMENT" = some "production" ∧ (((service.serve call).run {}).run blocked).1.1.status = 500 ∧
      (((service.serve call).run {}).run blocked).1.1.body = withheld.body ∧
      (Refusal.store (.disk .isDirectory)).response (.ofEnvironment [("ENVIRONMENT", "Production")]) =
        .json 500 (.ofMembers [("detail", .ofText "Storage error: IO error: Is a directory (os error 21)")]) := by
  intro environment service
  have given : environment.get? "ENVIRONMENT" = some "production" := by decide
  have failed : (((service.serve call).run {}).run blocked).1.1.status = 500 := by decide +kernel
  refine ⟨given, failed, (failures_withheld environment).2.1 given service call {} blocked rfl failed, ?_⟩
  exact (failures_withheld [("ENVIRONMENT", "Production")]).2.2.1 (by decide) (.store (.disk .isDirectory))

/-- With a capital letter in the word failures are told apart, and the location of a content is told. -/
theorem capital_tells :
    let settings : Settings := .ofEnvironment [("ENVIRONMENT", "Production")]
    let missing : Refusal := .store (.missingContent "v1" "blobs/v1")
    let unreadable : Refusal := .store (.disk .isDirectory)
    settings.isProduction = true ∧ missing.status = 500 ∧ unreadable.status = 500 ∧
      missing.response settings ≠ unreadable.response settings ∧
      missing.response settings =
        .json 500 (.ofMembers [("detail", .ofText "Storage error: Corrupt record v1: blob blobs/v1 is missing")]) := by
  decide +kernel

end Montage.Proofs.ServiceDiscretion
