import Montage.Encoding
import Montage.Proofs.RequestNumbers
import Montage.Proofs.WrittenRecords
import Montage.Report
import Montage.Store.Record

/-! Requests, reports, encodings and the records of a store are read back from their JSON, whatever texts they hold and
whichever of their parts are there. -/

namespace Montage.Proofs.ModelsWritten
open Json Record DoubleValue RequestNumbers JsonTokens JsonRecords JsonPrinted WrittenRecords

/-- Whether reading the number that is printed of a double returns the double. -/
def ReadsBack (x : Float) : Prop :=
  ∀ numeral, Numeral.ofDouble x = some numeral → numeral.double? = some x

/-- Whether a double is finite and read back. -/
structure Readable (x : Float) : Prop where
  finite : x.isFinite = true
  back : ReadsBack x

instance (x : Float) : Decidable (ReadsBack x) :=
  inferInstanceAs (Decidable (∀ numeral ∈ Numeral.ofDouble x, numeral.double? = some x))

instance (x : Float) : Decidable (Readable x) :=
  if both : x.isFinite = true ∧ ReadsBack x then .isTrue ⟨both.1, both.2⟩
  else .isFalse fun readable => both ⟨readable.finite, readable.back⟩

section Numbers
variable {x : Float}

private theorem ofDouble_finite (finite : x.isFinite = true) : ∃ numeral, Numeral.ofDouble x = some numeral := by
  obtain ⟨negative, mantissa, exponent, number⟩ : ∃ negative mantissa exponent,
      Number.meaning x = .number negative mantissa exponent := by
    change x.toModel.unpack.isFinite = true at finite
    unfold Number.meaning
    split
    next undefined => rw [undefined] at finite; cases finite
    next infinite => rw [infinite] at finite; cases finite
    next => exact ⟨_, _, _, rfl⟩
    next => exact ⟨_, _, _, rfl⟩
  simp only [Numeral.ofDouble, number]
  split_ifs <;> exact ⟨_, rfl⟩

private theorem ofDouble_fraction {numeral : Numeral} (printed : Numeral.ofDouble x = some numeral) :
    numeral.fraction.all Number.isDigit = true := by
  unfold Numeral.ofDouble at printed
  split at printed
  next negative mantissa exponent number =>
    have digits {number : Nat} (count : Nat) : ∀ c ∈ (Number.digitsOf number).drop count, Number.isDigit c = true :=
      fun c member => digitsOf_digits c (List.mem_of_mem_drop member)
    apply List.all_eq_true.mpr
    simp only at printed
    split_ifs at printed <;> obtain rfl := Option.some.inj printed <;> intro c member
    · exact List.mem_singleton.mp member ▸ rfl
    · exact List.mem_singleton.mp member ▸ rfl
    · exact digits _ c member
    · obtain zero | digit := List.mem_append.mp member
      · exact List.eq_of_mem_replicate zero ▸ rfl
      · exact digitsOf_digits c digit
    · exact digits _ c member
  next => cases printed

theorem written_double (readable : Readable x) : Written Reader.double (.ofDouble x) x := by
  obtain ⟨numeral, printed⟩ := ofDouble_finite readable.finite
  have number : Json.ofDouble x = .number numeral := by rw [Json.ofDouble, printed]
  rw [number]
  refine ⟨?_, ofDouble_fraction printed⟩
  simp only [Reader.double, readable.back numeral printed]

private theorem ofDouble_some (readable : Readable x) : Json.ofDouble x ≠ .null := by
  obtain ⟨numeral, printed⟩ := ofDouble_finite readable.finite
  rw [Json.ofDouble, printed]
  exact nofun

end Numbers

private theorem written_optionalText (part : Option String) :
    Written (Reader.optional Reader.text) (.ofOption .ofText part) part :=
  written_option fun value _ => written_some (ofText_some value) (written_text value)

private theorem segment_written {segment : Segment} (readable : ∀ x ∈ segmentNumbers segment, Readable x) :
    Written Segment.read segment.toJson segment := by
  have number {x : Float} (member : x ∈ segmentNumbers segment) := written_double (readable x member)
  refine written_record (by decide) (reads_seq (reads_seq (reads_map (reads_field (number ?_))) (reads_field (number ?_)))
    (reads_field (number ?_))) <;> simp [segmentNumbers]

private theorem clip_written {clip : Clip} (readable : ∀ x ∈ clipNumbers clip, Readable x) :
    Written Clip.read clip.toJson clip := by
  have start := readable clip.start List.mem_cons_self
  have volume : ∀ x ∈ clip.volume, Readable x := fun x held => readable x (by simp [clipNumbers, Option.mem_def.mp held])
  have track : Written (Reader.optional Reader.word32) (.ofOption (fun track => .ofNat track.toNat) clip.track)
      clip.track := written_option fun value _ => written_some (ofNat_some _) (written_word32 value)
  exact written_record (by decide) (reads_seq (reads_seq (reads_seq
    (reads_map (reads_field (written_text clip.id))) (reads_field (written_double start)))
    (reads_field (written_option fun x held => written_some (ofDouble_some (volume x held))
      (written_double (volume x held))))) (reads_field track))

private theorem cue_written (cue : Cue) : Written Cue.read cue.toJson cue :=
  written_record (by decide) (reads_seq (reads_seq (reads_map (reads_field (written_text cue.start)))
    (reads_field (written_text cue.stop))) (reads_field (written_text cue.text)))

private theorem style_written {style : Style} (readable : ∀ x ∈ styleNumbers style, Readable x) :
    Written Style.read style.toJson style := by
  have number {x : Float} (member : x ∈ styleNumbers style) := written_double (readable x member)
  refine written_record (by decide) (reads_seq (reads_seq (reads_seq (reads_seq (reads_seq (reads_seq
    (reads_map (reads_field (written_text style.font))) (reads_field (number ?_)))
    (reads_field (written_text style.primaryColor))) (reads_field (written_text style.outlineColor)))
    (reads_field (number ?_))) (reads_field (number ?_))) (reads_field (written_text style.alignment))) <;>
    simp [styleNumbers]

private theorem region_written {region : Region} (readable : ∀ x ∈ regionNumbers region, Readable x) :
    Written Region.read region.toJson region := by
  have number {x : Float} (member : x ∈ regionNumbers region) := written_double (readable x member)
  refine written_record (by decide) (reads_seq (reads_seq (reads_seq (reads_seq
    (reads_map (reads_field (number ?_))) (reads_field (number ?_))) (reads_field (number ?_)))
    (reads_field (number ?_))) (reads_field (written_flag region.enabled))) <;>
    simp [regionNumbers]

private theorem request_written {request : Request} (readable : ∀ x ∈ numbers request, Readable x) :
    Written Request.read request.toJson request := by
  simp only [numbers, List.mem_append, List.mem_flatMap, Option.mem_toList, List.mem_singleton] at readable
  have segments : ∀ segment ∈ request.segments, Written Segment.read segment.toJson segment := fun segment held =>
    segment_written fun x member => readable x (.inl (.inl (.inl (.inl ⟨segment, held, member⟩))))
  have clips : ∀ clip ∈ request.clips, Written Clip.read clip.toJson clip := fun clip held =>
    clip_written fun x member => readable x (.inl (.inl (.inl (.inr ⟨clip, held, member⟩))))
  have style : ∀ style ∈ request.style, Written (Reader.optional Style.read) style.toJson (some style) :=
    fun style held => written_some (ofMembers_some _)
      (style_written fun x member => readable x (.inl (.inl (.inr ⟨style, held, member⟩))))
  have region : ∀ region ∈ request.region, Written (Reader.optional Region.read) region.toJson (some region) :=
    fun region held => written_some (ofMembers_some _)
      (region_written fun x member => readable x (.inl (.inr ⟨region, held, member⟩)))
  exact written_record (by decide) (reads_seq (reads_seq (reads_seq (reads_seq (reads_seq (reads_seq (reads_seq
    (reads_seq (reads_map (reads_field (written_text request.source))) (reads_field (written_list segments)))
    (reads_field (written_list fun cue _ => cue_written cue))) (reads_field (written_list clips)))
    (reads_field (written_option style))) (reads_field (written_option region)))
    (reads_field (written_double (readable _ (.inr rfl))))) (reads_field (written_optionalText request.frame)))
    (reads_field (written_optionalText request.outputName)))

def statusText : Status → String
  | .ok => "ok"
  | .error => "error"

private theorem status_written (status : Status) : Written Report.readStatus (.ofText (statusText status)) status := by
  cases status <;> exact ⟨rfl, rfl⟩

/-- The fields of a report, of which those without a value are left off. -/
def reportEntries (report : Report) : Entries :=
  [("status", some (.ofText (statusText report.status))),
    ("message", some (.ofText report.message)),
    ("output_filename", report.outputName.map Json.ofText),
    ("output_path", report.outputPath.map Json.ofText),
    ("file_size", report.size.map fun size => Json.ofNat size.toNat),
    ("duration_seconds", report.duration.map Json.ofDouble),
    ("segment_count", some (.ofNat report.counts.segments.toNat)),
    ("audio_track_count", some (.ofNat report.counts.clips.toNat)),
    ("subtitle_count", some (.ofNat report.counts.cues.toNat)),
    ("log_file", report.logFile.map Json.ofText),
    ("command", report.command.map Json.ofText)]

private theorem report_toJson (report : Report) : report.toJson = .ofMembers (present (reportEntries report)) := by
  simp only [Report.toJson, reportEntries, present_some, present_part, present_nil, List.append_assoc, List.cons_append,
    List.nil_append, List.append_nil]
  rfl

private theorem report_written {report : Report} (readable : ∀ x ∈ report.duration, Readable x) :
    Written Report.read report.toJson report := by
  have text (part : Option String) : ∀ value ∈ part,
      Written (Reader.optional Reader.text) (.ofText value) (some value) :=
    fun value _ => written_some (ofText_some value) (written_text value)
  have size : ∀ size ∈ report.size, Written (Reader.optional (Reader.word64 "u64")) (.ofNat size.toNat) (some size) :=
    fun size _ => written_some (ofNat_some _) (written_word64 size "u64")
  have duration : ∀ x ∈ report.duration, Written (Reader.optional Reader.double) (.ofDouble x) (some x) :=
    fun x held => written_some (ofDouble_some (readable x held)) (written_double (readable x held))
  have reads : Reads Report.record _ report :=
    reads_seq (reads_seq (reads_seq (reads_seq (reads_seq (reads_seq (reads_seq (reads_seq (reads_seq (reads_seq
      (reads_map (reads_field (status_written report.status))) (reads_field (written_text report.message)))
      (reads_nullable (text report.outputName))) (reads_nullable (text report.outputPath))) (reads_nullable size))
      (reads_nullable duration)) (reads_field (written_word64 report.counts.segments "usize")))
      (reads_field (written_word64 report.counts.clips "usize")))
      (reads_field (written_word64 report.counts.cues "usize"))) (reads_nullable (text report.logFile)))
      (reads_nullable (text report.command))
  rw [report_toJson]
  exact written_record (by decide) reads

private theorem encoding_written (encoding : Encoding) : Written Encoding.read encoding.toJson encoding :=
  written_record (by decide) (reads_seq (reads_seq (reads_seq (reads_seq (reads_seq (reads_seq
    (reads_map (reads_field (written_text encoding.codec))) (reads_field (written_text encoding.preset)))
    (reads_field (written_word8 encoding.quality))) (reads_field (written_text encoding.audioCodec)))
    (reads_field (written_text encoding.audioBitrate))) (reads_field (written_flag encoding.fastStart)))
    (reads_field (written_list fun argument _ => written_text argument)))

theorem file_written (file : FileRecord) : Written FileRecord.read file.toJson file :=
  written_record (by decide) (reads_seq (reads_seq (reads_seq (reads_seq
    (reads_map (reads_field (written_text file.id))) (reads_field (written_text file.name)))
    (reads_field (written_text file.contentType))) (reads_field (written_text file.location)))
    (reads_field (written_word64 file.size "u64")))

/-- The fields of a project, of which a time that is not known is left off. -/
def projectEntries (project : Project) : Entries :=
  [("id", some (.ofText project.id)), ("name", some (.ofText project.name)),
    ("created_at", project.created.map Instant.toJson)]

private theorem project_toJson (project : Project) :
    project.toJson = .ofMembers (present (projectEntries project)) := by
  simp only [Project.toJson, projectEntries, present_some, present_part, present_nil, List.cons_append, List.nil_append,
    List.append_nil]

/-- A project is read back if the time at which it was created is. -/
theorem project_written {project : Project} (survives : ∀ created ∈ project.created,
    Instant.read created.toJson = .ok created) : Written Project.read project.toJson project := by
  have created : ∀ created ∈ project.created,
      Written (Reader.optional Instant.read) created.toJson (some created) :=
    fun created held => written_some (ofText_some _) ⟨survives created held, rfl⟩
  have reads : Reads Project.record _ project :=
    reads_seq (reads_seq (reads_map (reads_field (written_text project.id))) (reads_field (written_text project.name)))
      (reads_part created)
  rw [project_toJson]
  exact written_record (by decide) reads

/-- Every model is read back from its written forms: requests and reports whose doubles are finite and are read back
themselves, and all encodings and file records. -/
theorem models_return :
    (∀ request : Request, (∀ x ∈ numbers request, Readable x) → Returns Request.read request.toJson request) ∧
      (∀ report : Report, (∀ x ∈ report.duration, Readable x) → Returns Report.read report.toJson report) ∧
      (∀ encoding : Encoding, Returns Encoding.read encoding.toJson encoding) ∧
      ∀ file : FileRecord, Returns FileRecord.read file.toJson file := by
  refine ⟨fun request readable => ?_, fun report readable => ?_, fun encoding => ?_, fun file => ?_⟩
  · exact (request_written readable).returned
  · exact (report_written readable).returned
  · exact (encoding_written encoding).returned
  · exact (file_written file).returned

/-- A request for two thirds of a second, with a sound that is turned down and a box that is blurred. -/
def shortRequest : Request where
  source := "film \"1\""
  segments := [⟨0.25, 0.9166666666666666, 1⟩]
  clips := [{ id := "wind", start := 0.1, volume := some (-3.5), track := some 2 }]
  region := some { x := 10, width := 33.3, enabled := true }

/-- The report of a film of two thirds of a second. -/
def shortReport : Report where
  status := .ok
  message := "Video rendered successfully"
  duration := some 0.6666666666666666

theorem short_models_return : (∀ x ∈ numbers shortRequest, Readable x) ∧
    Returns Request.read shortRequest.toJson shortRequest ∧ (∀ x ∈ shortReport.duration, Readable x) ∧
    Returns Report.read shortReport.toJson shortReport := by
  have request_readable : ∀ x ∈ numbers shortRequest, Readable x := by decide
  have report_readable : ∀ x ∈ shortReport.duration, Readable x := by decide
  exact ⟨request_readable, models_return.1 shortRequest request_readable, report_readable,
    models_return.2.1 shortReport report_readable⟩

end Montage.Proofs.ModelsWritten
