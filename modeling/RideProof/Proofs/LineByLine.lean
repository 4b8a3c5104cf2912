import RideProof.Proofs.LineFaults
import RideProof.Proofs.OneLine
import Mathlib.Data.List.TakeWhile

/-!
# The input is judged line by line

A run that verifies its input judges each line by itself. The lines that start with the tag of a
ride, perhaps behind blanks, are verified one after the other; no other line could be accepted. The
journals of those that are accepted are written and the troubles of the others reported, both in
the order of the lines and each on a line of its own, and a line that is not accepted neither stops
the run nor changes what becomes of another one.

* `Text.CutIntoLines` — what the lines of a text are; `Text.cutIntoLines_iff`, that they are found.
* `OffersProof` — the lines to verify; `offersProof_of_verifyLine`, that there are no others.
* `Generator.accepted`, `Generator.refused` — the verdicts, line by line; `verdicts_eq`.
* `Generator.Reports` — what a run leaves behind of its lines; `Generator.reports_verifyLines`.
* `Invocation.run_verify` — the whole run.
-/

namespace RideProof

/-! ## Lines of a text -/

namespace Text

variable {line begun rest : List Char}

/-- How a text is cut into lines. -/
inductive CutIntoLines : List Char → List String → Prop
  /-- A text of nothing has no line. -/
  | nil : CutIntoLines [] []
  /-- The last line may have no end. -/
  | last {line : List Char} (hline : '\n' ∉ line) (hne : line ≠ []) :
    CutIntoLines line [String.ofList line]
  /-- A line ends at a line feed. -/
  | feed {line rest : List Char} {lines : List String} (hline : '\n' ∉ line)
    (hreturn : line.getLast? ≠ some '\r') (hrest : CutIntoLines rest lines) :
    CutIntoLines (line ++ '\n' :: rest) (String.ofList line :: lines)
  /-- A line ends at a carriage return before a line feed. -/
  | returnFeed {line rest : List Char} {lines : List String} (hline : '\n' ∉ line)
    (hrest : CutIntoLines rest lines) :
    CutIntoLines (line ++ '\r' :: '\n' :: rest) (String.ofList line :: lines)

/-- At the end of a text, the line that was begun is the last. -/
theorem linesFrom_nil (h : begun ≠ []) : linesFrom [] begun = [begun.reverse] := by
  cases begun with
  | nil => exact absurd rfl h
  | cons c begun => rw [linesFrom]

/-- A line feed ends the line that was begun. -/
theorem linesFrom_newline (rest begun : List Char) :
    linesFrom ('\n' :: rest) begun = endLine begun :: linesFrom rest [] := by
  rw [linesFrom, if_pos rfl]

/-- A line goes on up to a line feed. -/
theorem linesFrom_append (h : '\n' ∉ line) (rest begun : List Char) :
    linesFrom (line ++ rest) begun = linesFrom rest (line.reverse ++ begun) := by
  induction line generalizing begun with
  | nil => rfl
  | cons c line ih =>
    have hc : c ≠ '\n' := Ne.symm (List.ne_of_not_mem_cons h)
    rw [List.cons_append, linesFrom, if_neg hc, ih (List.not_mem_of_not_mem_cons h),
      List.reverse_cons, List.append_assoc, List.singleton_append]

/-- A line without a carriage return at its end is ended as it is. -/
theorem endLine_reverse (h : line.getLast? ≠ some '\r') : endLine line.reverse = line := by
  rcases hrev : line.reverse with _ | ⟨c, begun⟩
  · rw [endLine, List.reverse_eq_nil_iff.mp hrev]
  · have hc : c ≠ '\r' := by
      intro heq
      rw [List.getLast?_eq_head?_reverse, hrev, heq] at h
      exact h rfl
    rw [endLine, if_neg hc, ← hrev, List.reverse_reverse]

/-- A text that is cut into lines has those lines. -/
theorem CutIntoLines.eq_lines {text : List Char} {lines : List String}
    (h : CutIntoLines text lines) : lines = (linesFrom text []).map String.ofList := by
  induction h with
  | nil => rfl
  | @last line hline hne =>
    have hrev : line.reverse ++ [] ≠ [] := by simpa using hne
    have happend := linesFrom_append hline [] []
    rw [List.append_nil, linesFrom_nil hrev] at happend
    rw [happend]
    simp
  | feed hline hreturn _ ih =>
    rw [linesFrom_append hline, linesFrom_newline, List.append_nil, endLine_reverse hreturn,
      List.map_cons, ← ih]
  | @returnFeed line rest _ hline _ ih =>
    -- up to the line feed, the carriage return is part of the line that is begun
    have hsplit : line ++ '\r' :: '\n' :: rest = (line ++ ['\r']) ++ '\n' :: rest := by simp
    have hreturn : '\n' ∉ line ++ ['\r'] := by simpa using hline
    have hend : endLine ((line ++ ['\r']).reverse ++ []) = line := by simp [endLine]
    rw [hsplit, linesFrom_append hreturn, linesFrom_newline, hend, List.map_cons, ← ih]

/-- The lines that are found behind the start of a line. -/
theorem cutIntoLines_linesFrom (h : '\n' ∉ begun) (text : List Char) :
    CutIntoLines (begun.reverse ++ text) ((linesFrom text begun).map String.ofList) := by
  induction text generalizing begun with
  | nil =>
    rw [List.append_nil]
    rcases begun with _ | ⟨c, begun⟩
    · exact .nil
    · exact .last (mt List.mem_reverse.mp h) (by simp)
  | cons c text ih =>
    by_cases hc : c = '\n'
    · subst hc
      rw [linesFrom_newline, List.map_cons]
      have hrest : CutIntoLines text ((linesFrom text []).map String.ofList) :=
        ih List.not_mem_nil
      -- what ends here is an empty line, one before a carriage return, or any other
      rcases begun with _ | ⟨d, begun⟩
      · exact .feed List.not_mem_nil (by simp) hrest
      · have hbegun : '\n' ∉ begun.reverse :=
          mt List.mem_reverse.mp (List.not_mem_of_not_mem_cons h)
        by_cases hd : d = '\r'
        · rw [endLine, if_pos hd, hd, List.reverse_cons, List.append_assoc]
          exact .returnFeed hbegun hrest
        · rw [endLine, if_neg hd]
          exact .feed (mt List.mem_reverse.mp h) (by simpa using hd) hrest
    · have hmore : '\n' ∉ c :: begun := List.not_mem_cons_of_ne_of_not_mem (Ne.symm hc) h
      rw [linesFrom, if_neg hc]
      simpa using ih hmore

/-- The lines of a text are those that it is cut into. -/
theorem cutIntoLines_iff {text : String} {lines : List String} :
    CutIntoLines text.toList lines ↔ lines = textLines text := by
  constructor
  · exact CutIntoLines.eq_lines
  · rintro rfl
    exact cutIntoLines_linesFrom List.not_mem_nil text.toList

end Text

/-! ## Lines that are to be verified -/

namespace Message

variable {digits : List UInt8} {kind : MessageKind} {m : Message}

/-- A text with a tag starts with it. -/
theorem exists_of_splitTag {text : List Char} (h : splitTag text = some (kind, digits)) :
    ∃ rest, text = kind.tag ++ rest := by
  obtain ⟨found, -, hfound⟩ := List.exists_of_findSome?_eq_some h
  obtain ⟨rest, hrest, heq⟩ := Option.map_eq_some_iff.mp hfound
  cases heq
  exact ⟨rest, Text.afterTag?_eq_some_iff.mp hrest⟩

/-- A payload is read as a message of its kind. -/
theorem kind_of_ofPayload (h : ofPayload digits kind = .ok m) : m.kind = kind := by
  rcases hfault : firstFault kind digits with _ | e
  · obtain ⟨found, hfound, hkind⟩ := exists_ofPayload_iff.mpr hfault
    rw [h] at hfound
    cases hfound
    exact hkind
  · rw [ofPayload_of_fault hfault] at h
    cases h

end Message

/-- Behind blanks, a line starts with the tag of a ride. -/
def OffersProof (line : String) : Prop :=
  ∃ blanks rest : List Char, (∀ c ∈ blanks, Text.isBlank c = true) ∧
    line.toList = blanks ++ MessageKind.workAndProof.tag ++ rest

/-- The test of a line tells whether it offers a ride. -/
theorem isProofLine_iff {line : String} : isProofLine line = true ↔ OffersProof line := by
  unfold isProofLine
  rw [Option.isSome_iff_exists]
  constructor
  · rintro ⟨rest, hrest⟩
    refine ⟨line.toList.takeWhile Text.isBlank, rest, fun c hc => List.mem_takeWhile_imp hc, ?_⟩
    rw [List.append_assoc, ← Text.afterTag?_eq_some_iff.mp hrest]
    exact List.takeWhile_append_dropWhile.symm
  · rintro ⟨blanks, rest, hblanks, hline⟩
    refine ⟨rest, Text.afterTag?_eq_some_iff.mpr ?_⟩
    rw [hline, List.append_assoc, Text.trimStart_append hblanks]
    rfl

/-- Whether a line offers a ride can be decided. -/
instance : DecidablePred OffersProof := fun _ => decidable_of_iff _ isProofLine_iff

/-- What a text is trimmed to stands at its start. -/
theorem Text.trimEnd_prefix (cs : List Char) : trimEnd cs <+: cs := by
  have hsuffix := List.reverse_prefix.mpr (List.dropWhile_suffix (l := cs.reverse) isBlank)
  rwa [List.reverse_reverse] at hsuffix

/-- A line that is read as a ride offers one. -/
theorem Message.offersProof_of_ofLine {line : String} {work : WorkUnit} {log : RideLog}
    (h : ofLine line = .ok (.workAndProof work log)) : OffersProof line := by
  unfold ofLine at h
  rcases hsplit : splitTag (Text.trim line.toList) with _ | ⟨kind, digits⟩ <;> rw [hsplit] at h
  · cases h
  · obtain ⟨rest, htag⟩ := exists_of_splitTag hsplit
    obtain rfl : kind = .workAndProof := (kind_of_ofPayload h).symm
    obtain ⟨more, hmore⟩ := Text.trimEnd_prefix (Text.trimStart line.toList)
    rw [← isProofLine_iff, isProofLine, Option.isSome_iff_exists]
    refine ⟨rest ++ more, Text.afterTag?_eq_some_iff.mpr ?_⟩
    rw [← hmore, ← List.append_assoc, ← htag, Text.trim]

variable {g : Generator} {line : String} {lines : List String} {journal : Journal}

/-- A line that is accepted offers a ride. -/
theorem offersProof_of_verifyLine (h : g.verifyLine line = .ok journal) : OffersProof line := by
  unfold Generator.verifyLine at h
  rcases hread : Message.ofLine line with cause | (work | ⟨work, log⟩ | work) <;> rw [hread] at h
  case ok.workAndProof => exact Message.offersProof_of_ofLine hread
  all_goals cases h

/-! ## Verdicts -/

namespace Generator

/-- The journal of a line, if it is accepted. -/
def journal? (g : Generator) (line : String) : Option Journal := (g.verifyLine line).toOption

/-- The trouble with a line, if it is not. -/
def trouble? (g : Generator) (line : String) : Option Trouble :=
  match g.verifyLine line with
  | .ok _ => none
  | .error t => some t

/-- The journals of the lines that are accepted, in the order of the lines. -/
def accepted (g : Generator) (lines : List String) : List Journal := lines.filterMap g.journal?

/-- The troubles with the lines that are not, in the order of the lines. -/
def refused (g : Generator) (lines : List String) : List Trouble := lines.filterMap g.trouble?

/-- A line has a journal exactly if it is accepted with it. -/
theorem journal?_eq_some_iff :
    g.journal? line = some journal ↔ g.verifyLine line = .ok journal := by
  unfold journal?
  rcases g.verifyLine line with t | accepted <;> simp [Except.toOption]

/-- A line has a trouble exactly if it is refused for it. -/
theorem trouble?_eq_some_iff {t : Trouble} :
    g.trouble? line = some t ↔ g.verifyLine line = .error t := by
  unfold trouble?
  rcases g.verifyLine line with t | accepted <;> simp

/-- A line has no trouble exactly if it is accepted. -/
theorem trouble?_eq_none_iff :
    g.trouble? line = none ↔ ∃ journal, g.verifyLine line = .ok journal := by
  unfold trouble?
  rcases g.verifyLine line with t | accepted <;> simp

/-- The verdicts on lines are the journals of those that are accepted and the troubles of the
others. -/
theorem verdicts_eq (g : Generator) (lines : List String) :
    verdicts g lines = (g.accepted lines, g.refused lines) := by
  induction lines with
  | nil => rfl
  | cons line lines ih =>
    unfold verdicts at ih ⊢
    rw [List.foldr_cons, ih, accepted, accepted, refused, refused]
    rcases hline : g.verifyLine line with t | journal
    · have hnone : g.journal? line = none := by rw [journal?, hline, Except.toOption]
      rw [List.filterMap_cons_none hnone,
        List.filterMap_cons_some (trouble?_eq_some_iff.mpr hline)]
    · rw [List.filterMap_cons_some (journal?_eq_some_iff.mpr hline),
        List.filterMap_cons_none (trouble?_eq_none_iff.mpr ⟨journal, hline⟩)]

/-- Lines that offer no ride add no journal. -/
theorem accepted_filter (g : Generator) (lines : List String) :
    g.accepted (lines.filter (OffersProof ·)) = g.accepted lines := by
  unfold accepted
  rw [List.filterMap_filter]
  refine List.filterMap_congr fun line _ => ?_
  by_cases hline : OffersProof line
  · simp [hline]
  · rcases hjournal : g.journal? line with _ | journal
    · simp
    · exact absurd (offersProof_of_verifyLine (journal?_eq_some_iff.mp hjournal)) hline

/-- No line is refused exactly if all are accepted. -/
theorem refused_eq_nil_iff :
    g.refused lines = [] ↔ ∀ line ∈ lines, ∃ journal, g.verifyLine line = .ok journal := by
  rw [refused, List.filterMap_eq_nil_iff]
  exact forall₂_congr fun line _ => trouble?_eq_none_iff

/-- The sentence on a refused line is one line. -/
theorem oneLine_of_mem_refused {t : Trouble} (h : t ∈ g.refused lines) :
    Text.OneLine t.summary := by
  obtain ⟨line, -, hline⟩ := List.mem_filterMap.mp h
  exact oneLine_summary (trouble?_eq_some_iff.mp hline)

/-- What a run leaves behind of the lines that it verifies. -/
structure Reports (g : Generator) (lines : List String) (o : Outcome) : Prop where
  /-- It writes the journals of the lines that are accepted, each on a line. -/
  output : o.output = String.join ((g.accepted lines).map fun j => j.toJson.compact ++ "\n")
  /-- A journal is one line. -/
  oneLine_journal : ∀ j ∈ g.accepted lines, Text.OneLine j.toJson.compact
  /-- It reports the troubles of the others, each on a line, and how many there are. -/
  errors : o.errors =
    String.join ((g.refused lines).map fun t => "REJECTED: " ++ t.summary ++ "\n") ++
      if g.refused lines = [] then ""
      else "Error: " ++ s!"{(g.refused lines).length} of {lines.length} proofs rejected" ++ "\n"
  /-- A trouble is reported on one line. -/
  oneLine_trouble : ∀ t ∈ g.refused lines, Text.OneLine t.summary
  /-- It ends well exactly if all lines are accepted. -/
  code : o.code = 0 ↔ ∀ line ∈ lines, ∃ journal, g.verifyLine line = .ok journal

/-- A run over some lines leaves behind what the lines are accepted and refused with. -/
theorem reports_verifyLines (h : lines ≠ []) : g.Reports lines (verifyLines g lines) := by
  have hlines : lines.isEmpty = false := List.isEmpty_eq_false_iff.mpr h
  unfold verifyLines
  rw [hlines, verdicts_eq]
  dsimp only
  by_cases hall : g.refused lines = []
  · rw [if_neg (by decide), if_pos (List.isEmpty_iff.mpr hall)]
    exact {
      output := rfl
      oneLine_journal := fun j _ => j.oneLine_compact
      errors := by
        rw [if_pos hall, hall]
        rfl
      oneLine_trouble := fun _ => oneLine_of_mem_refused
      code := iff_of_true rfl (refused_eq_nil_iff.mp hall) }
  · rw [if_neg (by decide), if_neg (mt List.isEmpty_iff.mp hall)]
    exact {
      output := rfl
      oneLine_journal := fun j _ => j.oneLine_compact
      errors := by
        rw [if_neg hall]
        rfl
      oneLine_trouble := fun _ => oneLine_of_mem_refused
      code :=
        iff_of_false (show ¬ (1 : UInt32) = 0 by decide) (mt refused_eq_nil_iff.mpr hall) }

end Generator

/-! ## The run -/

/-- **Verification of the input.** Under either rules, and whatever text the input is: without a line
that offers a ride, the run ends in trouble and writes nothing. Otherwise it reports on those lines,
each judged as if it were alone. The journals that it writes are those of all lines of the input
that could be accepted. -/
theorem Invocation.run_verify (settings : Settings) (testMode : Bool) (text : String)
    (script : Except ReadFault String) :
    let g := Generator.standard { settings with testMode := settings.testMode || testMode }.rules
    let outcome := (⟨testMode, .verify none⟩ : Invocation).run settings (.ok text) script
    ∃ lines, (∀ cut, Text.CutIntoLines text.toList cut ↔ cut = lines) ∧
      let proofs := lines.filter (OffersProof ·)
      (if proofs = [] then outcome = ⟨1, "", "Error: no proof lines to verify\n"⟩
        else g.Reports proofs outcome) ∧
      g.accepted proofs = g.accepted lines := by
  intro g outcome
  refine ⟨textLines text, fun cut => Text.cutIntoLines_iff, ?_, g.accepted_filter _⟩
  have hproofs : (textLines text).filter isProofLine = (textLines text).filter (OffersProof ·) :=
    List.filter_congr fun line _ => by simp [← isProofLine_iff]
  have hrun : outcome = verifyLines g ((textLines text).filter (OffersProof ·)) := by
    rw [← hproofs]
    rfl
  rw [hrun]
  split_ifs with hempty
  · rw [hempty]
    rfl
  · exact Generator.reports_verifyLines hempty

end RideProof
