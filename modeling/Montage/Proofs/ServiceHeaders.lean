import Mathlib.Algebra.Group.Nat.Defs
import Montage.Proofs.JobLogic
import Montage.Service.Basic

/-! The headers that mark responses. Whatever a request asks for and whatever comes of it, the response carries the
headers for security and one name of the request, each once. Only what is told to pages that ask beforehand carries
none of them. -/

namespace Montage.Proofs.ServiceHeaders
open Http Service JobLogic

def named (response : Response) (name : String) : List String :=
  (response.headers.filter (·.1 = name)).map (·.2)

section Setting
variable {response : Response} {headers : List (String × String)} {name value : String}

theorem named_set (response : Response) (name value other : String) :
    named (response.set name value) other = if other = name then [value] else named response other := by
  simp only [named, Response.set, List.filter_append, List.filter_filter, List.map_append]
  by_cases same : other = name
  · subst same
    simp
  · have kept : response.headers.filter (fun header => decide (header.1 = other) && decide (header.1 ≠ name)) =
        response.headers.filter (·.1 = other) := by
      refine List.filter_congr fun header _ => ?_
      by_cases held : header.1 = other <;> simp [held, same]
    rw [kept, if_neg same]
    simp [Ne.symm same]

private theorem named_setAll_other (absent : ∀ header ∈ headers, header.1 ≠ name) :
    named (response.setAll headers) name = named response name := by
  induction headers generalizing response with
  | nil => rfl
  | cons header rest ih =>
    obtain ⟨first, later⟩ := List.forall_mem_cons.mp absent
    exact (ih later).trans ((named_set response _ _ name).trans (if_neg first.symm))

private theorem named_setAll (nodup : (headers.map Prod.fst).Nodup) (member : (name, value) ∈ headers) :
    named (response.setAll headers) name = [value] := by
  induction headers generalizing response with
  | nil => cases member
  | cons header rest ih =>
    obtain ⟨fresh, later⟩ := List.nodup_cons.mp nodup
    rcases List.mem_cons.mp member with rfl | inside
    · have absent : ∀ other ∈ rest, other.1 ≠ name := by
        rintro other among rfl
        exact fresh (List.mem_map.mpr ⟨other, among, rfl⟩)
      exact (named_setAll_other absent).trans ((named_set response _ _ name).trans (if_pos rfl))
    · exact ih later inside

private theorem named_none (absent : ∀ header ∈ response.headers, header.1 ≠ name) : named response name = [] := by
  have dropped : response.headers.filter (·.1 = name) = [] := by simpa using absent
  rw [named, dropped, List.map_nil]

end Setting

section Identifiers

private theorem hexDigits_length (width number : Nat) : (hexDigits width number).length = width := by
  induction width generalizing number with
  | zero => rfl
  | succ width ih => simp [hexDigits, ih]

def isHexDigit (c : Char) : Bool :=
  "0123456789abcdef".toList.contains c

private theorem hexDigits_digits (width number : Nat) : ∀ c ∈ hexDigits width number, isHexDigit c = true := by
  induction width generalizing number with
  | zero => exact nofun
  | succ width ih =>
    have last : ∀ digit < 16, isHexDigit (Nat.digitChar digit) = true := by decide
    intro c member
    rcases List.mem_append.mp member with front | back
    · exact ih _ c front
    · rw [List.mem_singleton.mp back]
      exact last _ (Nat.mod_lt _ (by decide))

/-- The digits tell a number that does not need more of them. -/
private theorem hexDigits_injective (width : Nat) {first second : Nat} (small : first < 16 ^ width)
    (also : second < 16 ^ width)
    (same : hexDigits width first = hexDigits width second) : first = second := by
  induction width generalizing first second with
  | zero => omega
  | succ width ih =>
    have digit : ∀ one < 16, ∀ two < 16, Nat.digitChar one = Nat.digitChar two → one = two := by decide
    obtain ⟨front, last⟩ := List.append_inj' same rfl
    have quotients := ih (by omega) (by omega) front
    have remainders := digit _ (Nat.mod_lt first (by decide)) _ (Nat.mod_lt second (by decide)) (List.singleton_inj.mp last)
    omega

/-- A universally unique identifier of version 4: thirty-two digits in five groups. -/
def IsUuid (text : String) : Prop :=
  ∃ one two three four five : List Char, ∃ variant ∈ ['8', '9', 'a', 'b'],
    text.toList = one ++ '-' :: two ++ '-' :: '4' :: three ++ '-' :: variant :: four ++ '-' :: five ∧
      [one, two, three, four, five].map List.length = [8, 4, 3, 3, 12] ∧
      ∀ group ∈ [one, two, three, four, five], ∀ c ∈ group, isHexDigit c = true

private theorem identifierText_uuid (number : Nat) : IsUuid (identifierText number) := by
  have long := hexDigits_length 30 number
  have digits := hexDigits_digits 30 number
  unfold identifierText
  generalize hexDigits 30 number = all at long digits
  refine ⟨_, _, _, _, _, '8', List.mem_cons_self, String.toList_ofList, ?_, ?_⟩
  · simp [long]
  · intro group member c inside
    refine digits c ?_
    simp only [List.mem_cons, List.not_mem_nil, or_false] at member
    rcases member with rfl | rfl | rfl | rfl | rfl
    · exact List.mem_of_mem_take inside
    · exact List.mem_of_mem_drop (List.mem_of_mem_take inside)
    · exact List.mem_of_mem_drop (List.mem_of_mem_take inside)
    · exact List.mem_of_mem_drop (List.mem_of_mem_take inside)
    · exact List.mem_of_mem_drop inside

private theorem identifierText_injective {first second : Nat} (small : first < 16 ^ 30) (also : second < 16 ^ 30)
    (same : identifierText first = identifierText second) : first = second := by
  have long := hexDigits_length 30
  refine hexDigits_injective 30 small also ?_
  have cut (digits : List Char) : digits = digits.take 8 ++ ((digits.drop 8).take 4 ++ ((digits.drop 12).take 3 ++
      ((digits.drop 15).take 3 ++ digits.drop 18))) := by
    rw [← List.drop_drop (i := 3) (j := 15), List.take_append_drop, ← List.drop_drop (i := 3) (j := 12),
      List.take_append_drop, ← List.drop_drop (i := 4) (j := 8), List.take_append_drop, List.take_append_drop]
  have chars := String.ofList_injective same
  have one := long first
  have two := long second
  generalize hexDigits 30 first = here at chars one ⊢
  generalize hexDigits 30 second = there at chars two ⊢
  obtain ⟨chars, fifth⟩ := List.append_inj' chars (by simp [one, two])
  obtain ⟨chars, fourth⟩ := List.append_inj' chars (by simp [one, two])
  obtain ⟨chars, third⟩ := List.append_inj' chars (by simp [one, two])
  obtain ⟨groups, other⟩ := List.append_inj' chars (by simp [one, two])
  simp only [List.cons.injEq, true_and] at fifth fourth third other
  rw [cut here, cut there, groups, other, third, fourth, fifth]

end Identifiers

/-- A name that a client may give its request: some characters that can be read, and not too many. -/
structure Usable (name : String) : Prop where
  filled : name ≠ ""
  short : name.utf8ByteSize ≤ 128
  visible : ∀ c ∈ name.toList, (' ' ≤ c ∧ c ≤ '~') ∨ c = '\t'

theorem givenIdentity_iff {request : Http.Request} {name : String} : givenIdentity request = some name ↔
    request.header? "x-request-id" = some name ∧ Usable name := by
  simp only [givenIdentity, Http.Request.readable?, identityHeader, Option.filter_eq_some_iff, isReadable, longestIdentity,
    Bool.and_eq_true, Bool.not_eq_true', decide_eq_true_eq, List.all_eq_true, Bool.or_eq_true]
  constructor
  · rintro ⟨⟨found, visible⟩, filled, short⟩
    exact ⟨found, by simpa using filled, of_decide_eq_true short, visible⟩
  · rintro ⟨found, filled, short, visible⟩
    exact ⟨⟨found, visible⟩, by simpa using filled, decide_eq_true short⟩

/-- None of the identifiers that a machine gave out before, unless it gave them all out. -/
def IsNew (machine : Machine) (name : String) : Prop :=
  machine.identifiers < 16 ^ 30 → ∀ number < machine.identifiers, identifierText number ≠ name

private theorem identifierText_new (machine : Machine) : IsNew machine (identifierText machine.identifiers) := by
  intro small number before same
  have equal := identifierText_injective (Nat.lt_trans before small) small same
  omega

/-- Whether a response carries the headers for security and the name of its request, each once. -/
structure Marked (request : Http.Request) (machine : Machine) (response : Response) : Prop where
  contentType : named response "x-content-type-options" = ["nosniff"]
  frames : named response "x-frame-options" = ["DENY"]
  transport : named response "strict-transport-security" = ["max-age=31536000; includeSubDomains"]
  referrer : named response "referrer-policy" = ["strict-origin-when-cross-origin"]
  resources : named response "cross-origin-resource-policy" = ["same-origin"]
  policies : named response "x-permitted-cross-domain-policies" = ["none"]
  given : ∀ name, request.header? "x-request-id" = some name → Usable name → named response "x-request-id" = [name]
  fresh : (∀ name, request.header? "x-request-id" = some name → ¬ Usable name) →
    ∃ name, named response "x-request-id" = [name] ∧ IsUuid name ∧ IsNew machine name

def marks : List String :=
  identityHeader :: securityHeaders.map Prod.fst

private theorem identity_run (request : Http.Request) (machine : Machine) : ((identity request).run machine).1 =
    (givenIdentity request).getD (identifierText machine.identifiers) := by
  unfold identity
  cases givenIdentity request <;> rfl

section Sharing
variable (sharing : Sharing) (origin : Option String) {name : String}

private theorem allowedOrigin_unmarked : ∀ header ∈ sharing.allowedOrigin origin, header.1 ∉ marks := by
  have name : ∀ header ∈ sharing.allowedOrigin origin, header.1 = "access-control-allow-origin" := by
    simp only [Sharing.allowedOrigin]
    cases sharing <;> simp +contextual [eq_comm]
  intro header member
  rw [name header member]
  decide

private theorem headers_unmarked : ∀ header ∈ sharing.headers origin, header.1 ∉ marks := by
  have fixed : ∀ header ∈ sharing.credentials ++ [Sharing.vary] ++ sharing.exposed, header.1 ∉ marks := by
    cases sharing <;> simp [Sharing.credentials, Sharing.vary, Sharing.exposed, marks, identityHeader, securityHeaders]
  exact List.forall_mem_append.mpr ⟨fixed, allowedOrigin_unmarked sharing origin⟩

private theorem preflight_unmarked : ∀ header ∈ (sharing.preflight origin).headers, header.1 ∉ marks := by
  have fixed : ∀ header ∈ sharing.credentials ++ [Sharing.vary] ++ sharing.allowed ++ [Sharing.maxAge],
      header.1 ∉ marks := by
    cases sharing <;> simp [Sharing.credentials, Sharing.vary, Sharing.allowed, Sharing.maxAge, marks, identityHeader,
      securityHeaders]
  exact List.forall_mem_append.mpr ⟨fixed, allowedOrigin_unmarked sharing origin⟩

private theorem withAllowed_named (endpoint : Option Endpoint) (method : String) (response : Response)
    (mark : name ∈ marks) : named (withAllowed endpoint method response) name = named response name := by
  have apart : ∀ name ∈ marks, name ≠ "allow" := by decide
  unfold withAllowed
  split
  · rfl
  · split
    · rfl
    · rw [named_set, if_neg (apart name mark)]

end Sharing

section Serving
variable (service : Service) (request : Http.Request)

/-- What is set on a response to a request of another method than that of pages which ask beforehand. -/
def finished (name : String) (response : Response) : Response :=
  let sharing := Sharing.ofOrigins service.settings.origins
  let response := (response.setAll securityHeaders).set identityHeader name
  let response := response.setAll (sharing.headers (request.header? "origin"))
  let endpoint := service.endpoint request
  withoutBody endpoint request.method (withAllowed endpoint request.method response)

private theorem named_finished (name : String) (response : Response) {mark : String} (member : mark ∈ marks) :
    named (finished service request name response) mark =
      if mark = identityHeader then [name] else named (response.setAll securityHeaders) mark := by
  have absent : ∀ header ∈ (Sharing.ofOrigins service.settings.origins).headers (request.header? "origin"),
      header.1 ≠ mark := by
    rintro header among rfl
    exact headers_unmarked _ _ header among member
  have bodiless (endpoint : Option Endpoint) (method : String) (response : Response) :
      named (withoutBody endpoint method response) mark = named response mark := by
    unfold withoutBody
    split <;> rfl
  rw [finished, bodiless, withAllowed_named _ _ _ member, named_setAll_other absent, named_set]

private theorem finished_marked (machine : Machine) (response : Response) :
    Marked request machine (finished service request ((identity request).run machine).1 response) := by
  have secured : ∀ header ∈ securityHeaders,
      named (finished service request ((identity request).run machine).1 response) header.1 = [header.2] := by
    intro header member
    have distinct : (securityHeaders.map Prod.fst).Nodup := by decide
    have other : ∀ header ∈ securityHeaders, header.1 ∈ marks ∧ header.1 ≠ identityHeader := by decide
    obtain ⟨mark, apart⟩ := other header member
    rw [named_finished service request _ _ mark, if_neg apart]
    exact named_setAll distinct member
  have identified : named (finished service request ((identity request).run machine).1 response) identityHeader =
      [(givenIdentity request).getD (identifierText machine.identifiers)] := by
    rw [named_finished service request _ _ List.mem_cons_self, if_pos rfl, identity_run]
  refine ⟨secured (_, _) (by decide), secured (_, _) (by decide), secured (_, _) (by decide),
    secured (_, _) (by decide), secured (_, _) (by decide), secured (_, _) (by decide), ?_, ?_⟩
  · intro name header usable
    rw [givenIdentity_iff.mpr ⟨header, usable⟩] at identified
    exact identified
  · intro unusable
    have nothing : givenIdentity request = none := by
      rw [Option.eq_none_iff_forall_not_mem]
      intro name given
      obtain ⟨header, usable⟩ := givenIdentity_iff.mp given
      exact unusable name header usable
    rw [nothing] at identified
    exact ⟨_, identified, identifierText_uuid _, identifierText_new machine⟩

private theorem serve_ordinary (ordinary : request.method ≠ "OPTIONS") (tally : Metrics.Tally) (machine : Machine) :
    ∃ response, (((service.serve request).run tally).run machine).1.1 =
      finished service request ((identity request).run machine).1 response := by
  have steps : (service.serve request).run tally = (identity request).bind fun name =>
      ((service.counted request).run tally).bind fun answer =>
        pure (finished service request name answer.1, answer.2) := by
    simp only [serve, if_neg ordinary, StateT.run_bind, StateT.run_monadLift, bind_assoc, pure_bind]
    rfl
  rw [steps, run_bind, run_bind]
  exact ⟨_, rfl⟩

theorem serve_preflight (beforehand : request.method = "OPTIONS") (tally : Metrics.Tally) (machine : Machine) :
    (((service.serve request).run tally).run machine).1.1 = withAllowed (service.endpoint request) request.method
      ((Sharing.ofOrigins service.settings.origins).preflight (request.header? "origin")) := by
  rw [serve, if_pos beforehand]
  rfl

/-- Every response carries the headers for security and the name of its request, each once, whatever was asked for
and whatever came of it. Only pages which ask beforehand are told none of them. -/
theorem responses_marked (tally : Metrics.Tally) (machine : Machine) :
    (request.method ≠ "OPTIONS" →
        Marked request machine (((service.serve request).run tally).run machine).1.1) ∧
      (request.method = "OPTIONS" →
        ∀ mark ∈ marks, named (((service.serve request).run tally).run machine).1.1 mark = []) := by
  constructor
  · intro ordinary
    obtain ⟨response, served⟩ := serve_ordinary service request ordinary tally machine
    rw [served]
    exact finished_marked service request machine response
  · intro beforehand mark member
    rw [serve_preflight service request beforehand, withAllowed_named _ _ _ member]
    refine named_none ?_
    rintro header among rfl
    exact preflight_unmarked _ _ header among member

end Serving

theorem named_call_marked :
    let request : Http.Request := { method := "GET", target := "/health", headers := [("X-Request-ID", "req-1")] }
    let response := (((Service.serve { store := ⟨"/data"⟩ } request).run {}).run {}).1.1
    Marked request {} response ∧ named response "x-request-id" = ["req-1"] := by
  have marked := (responses_marked { store := ⟨"/data"⟩ }
    { method := "GET", target := "/health", headers := [("X-Request-ID", "req-1")] } {} {}).1 (by decide)
  exact ⟨marked, marked.given "req-1" (by decide +kernel) ⟨by decide, by decide, by simp⟩⟩

/-- A page that asks beforehand gives its request a name too, and is not told it. -/
theorem named_preflight_unmarked :
    let request : Http.Request := { method := "OPTIONS", target := "/health", headers := [("X-Request-ID", "req-1")] }
    ¬ Marked request {} (((Service.serve { store := ⟨"/data"⟩ } request).run {}).run {}).1.1 := by
  intro request marked
  have told : named (((Service.serve { store := ⟨"/data"⟩ } request).run {}).run {}).1.1 "x-frame-options" = [] := by
    decide
  exact absurd (told.symm.trans marked.frames) (by decide)

end Montage.Proofs.ServiceHeaders
