import RideProof.CommandLine
import Mathlib.Tactic.SplitIfs

/-!
# Texts of one line

The sentences on a line that is not accepted and the journal of one that is are texts without a
line feed, whatever was in the line. Numbers are written in digits, and a line feed in a string of
the data format is escaped. Only the text of a number that is no integer stands as it was read; a
journal has no such number.

* `Text.OneLine` — texts without a line feed.
* `WireError.oneLine_message`, `VerifyError.oneLine_message` — the sentences on faults.
* `Generator.oneLine_summary` — the report on a line that is not accepted.
* `Json.Token.newline_notMem_chars`, `Json.oneLine_compact` — the data format.
* `Journal.oneLine_compact` — the journal of a line that is accepted.
-/

namespace RideProof

/-- A text has no line feed. -/
def Text.OneLine (s : String) : Prop := '\n' ∉ s.toList

open Text (OneLine)

/-! ## Sentences -/

namespace Text

variable {s t : String}

/-- Whether a text has no line feed can be decided. -/
instance : DecidablePred OneLine := fun s => inferInstanceAs (Decidable ('\n' ∉ s.toList))

/-- Two texts after one another are one line if both are. -/
@[simp] theorem oneLine_append : OneLine (s ++ t) ↔ OneLine s ∧ OneLine t := by
  rw [OneLine, String.toList_append, List.mem_append, not_or]
  rfl

/-- A text stands for itself. -/
@[simp] theorem oneLine_toString_string (s : String) : OneLine (toString s) ↔ OneLine s := Iff.rfl

/-- A natural number is written on one line. -/
@[simp] theorem oneLine_toString_nat (n : Nat) : OneLine (toString n) := by
  intro h
  have hdigit := Nat.isDigit_of_mem_toDigits (by decide) (by decide) (Nat.toList_repr ▸ h)
  exact absurd hdigit (by decide)

/-- An integer is written on one line. -/
@[simp] theorem oneLine_toString_int (n : Int) : OneLine (toString n) := by
  cases n with
  | ofNat n => exact oneLine_toString_nat n
  | negSucc n => exact oneLine_append.mpr ⟨by decide, oneLine_toString_nat (n + 1)⟩

/-- Lines joined by a separator without a line feed are one line. -/
theorem oneLine_intercalate (hs : OneLine s) :
    ∀ {l : List String}, (∀ t ∈ l, OneLine t) → OneLine (s.intercalate l)
  | [], _ => by
    rw [String.intercalate_nil]
    decide
  | [t], h => by
    rw [String.intercalate_singleton]
    exact h t (List.mem_singleton_self t)
  | t :: u :: l, h => by
    have ht := h t (List.mem_cons_self ..)
    have hrest := oneLine_intercalate hs fun v hv => h v (List.mem_cons_of_mem t hv)
    rw [String.intercalate_cons_cons]
    exact oneLine_append.mpr ⟨oneLine_append.mpr ⟨ht, hs⟩, hrest⟩

end Text

/-! The equations of `message` are out of reach of `simp`, which would compute the bytes of the
literals in them; `delta` opens the definition without them. -/

/-- The sentence on a fault of a line is one line. -/
theorem WireError.oneLine_message (e : WireError) : OneLine e.message := by
  cases e with
  | unknownTag | invalidHex => decide
  | truncated expected got | tooManyUpdates count =>
    delta message
    simp only [Text.oneLine_append, Text.oneLine_toString_string, Text.oneLine_toString_nat]
    decide

/-- The sentence on a failure is one line. -/
theorem Failure.oneLine_message (f : Failure) : OneLine f.message := by
  cases f <;> decide

/-- The sentence on a course that is rejected is one line. -/
theorem WorldRejection.oneLine_message (r : WorldRejection) : OneLine r.message := by
  rcases r with _ | (_ | cost) | distance | (_ | reason)
  case pathFilter.some | finishInGround | sanityTick.some =>
    delta message
    simp only [Text.oneLine_append, Text.oneLine_toString_string, Text.oneLine_toString_nat,
      Text.oneLine_toString_int, Failure.oneLine_message]
    decide
  all_goals decide

/-- The sentence on a fault of a replay is one line. -/
theorem ReplayError.oneLine_message (e : ReplayError) : OneLine e.message := by
  cases e <;> delta message <;>
    simp only [Text.oneLine_append, Text.oneLine_toString_string, Text.oneLine_toString_nat,
      Text.oneLine_toString_int, Failure.oneLine_message] <;>
    decide

/-- The sentence on a fault of a proof is one line. -/
theorem VerifyError.oneLine_message (e : VerifyError) : OneLine e.message := by
  cases e <;> delta message <;>
    simp only [Text.oneLine_append, Text.oneLine_toString_string, Text.oneLine_toString_nat,
      Text.oneLine_toString_int, WorldRejection.oneLine_message, ReplayError.oneLine_message] <;>
    decide

/-- The report on a line that is not accepted is one line. -/
theorem Generator.oneLine_summary {g : Generator} {line : String} {t : Trouble}
    (h : g.verifyLine line = .error t) : OneLine t.summary := by
  apply Text.oneLine_intercalate (by decide)
  unfold verifyLine at h
  rcases hread : Message.ofLine line with cause | (work | ⟨work, log⟩ | work) <;>
    rw [hread] at h <;> dsimp only at h
  case ok.workAndProof =>
    rcases hverify : g.verify work log with cause | journal <;> rw [hverify] at h <;> cases h
    exact List.forall_mem_cons.mpr ⟨by decide, List.forall_mem_singleton.mpr cause.oneLine_message⟩
  case error =>
    cases h
    exact List.forall_mem_cons.mpr ⟨by decide, List.forall_mem_singleton.mpr cause.oneLine_message⟩
  all_goals
    cases h
    exact List.forall_mem_singleton.mpr (by decide)

/-! ## The data format -/

namespace Decimal

/-- A decimal digit is no line feed. -/
theorem digit_ne_newline {n : Nat} (h : n < 10) : digit n ≠ '\n' := by
  have all : ∀ k : Fin 10, digit k.val ≠ '\n' := by decide
  exact all ⟨n, h⟩

/-- The digits of a number, put before characters without a line feed, bring in none. -/
theorem newline_notMem_push (n : Nat) {rest : List Char} (h : '\n' ∉ rest) :
    '\n' ∉ push n rest := by
  fun_induction push n rest with
  | case1 n rest hn => exact List.not_mem_cons_of_ne_of_not_mem (digit_ne_newline hn).symm h
  | case2 n rest hn ih =>
    have hdigit := digit_ne_newline (Nat.mod_lt n (by decide : 0 < 10))
    exact ih (List.not_mem_cons_of_ne_of_not_mem hdigit.symm h)

/-- An integer of the data format is written without a line feed. -/
theorem newline_notMem_ofInt (n : Int) : '\n' ∉ ofInt n := by
  have hdigits : '\n' ∉ ofNat n.natAbs := newline_notMem_push _ List.not_mem_nil
  unfold ofInt
  split_ifs
  · exact List.not_mem_cons_of_ne_of_not_mem (by decide) hdigits
  · exact hdigits

end Decimal

namespace Json

namespace Token

/-- A hexadecimal digit is no line feed. -/
theorem hexDigit_ne_newline {n : Nat} (h : n < 16) : hexDigit n ≠ '\n' := by
  have all : ∀ k : Fin 16, hexDigit k.val ≠ '\n' := by decide
  exact all ⟨n, h⟩

/-- A character of a string is written without a line feed, a line feed as well. -/
theorem newline_notMem_escapeChar (c : Char) : '\n' ∉ escapeChar c := by
  unfold escapeChar
  split
  -- the last case is a character that no short escape is for
  case h_8 hnewline _ _ =>
    split_ifs with hcontrol
    · have hhigh := hexDigit_ne_newline (n := c.toNat / 16) (by omega)
      have hlow := hexDigit_ne_newline (Nat.mod_lt c.toNat (by decide : 0 < 16))
      simp [hhigh.symm, hlow.symm]
    · exact List.not_mem_cons_of_ne_of_not_mem (Ne.symm hnewline) List.not_mem_nil
  all_goals decide

/-- A string of the data format is written without a line feed, whatever its text. -/
theorem newline_notMem_quote (s : String) : '\n' ∉ quote s := by
  intro h
  rcases List.mem_cons.mp h with hquote | h
  · exact absurd hquote (by decide)
  rcases List.mem_append.mp h with hchars | hquote
  · obtain ⟨c, -, hc⟩ := List.mem_flatMap.mp hchars
    exact newline_notMem_escapeChar c hc
  · exact absurd hquote (by decide)

/-- Only the text of a number that is no integer can have a line feed. -/
theorem newline_notMem_chars {t : Token} (h : ∀ text, t ≠ .real text) : '\n' ∉ t.chars := by
  cases t with
  | int n => exact Decimal.newline_notMem_ofInt n
  | real text => exact absurd rfl (h text)
  | string s =>
    cases s with
    | none => decide
    | some s => exact newline_notMem_quote s
  | bool b => cases b <;> decide
  | _ => decide

end Token

variable {j : Json}

/-- A value all of whose numbers are integers is written on one line. -/
theorem oneLine_compact (h : ∀ text, Token.real text ∉ j.tokens) : OneLine j.compact := by
  rw [OneLine, compact, String.toList_ofList, List.mem_flatMap]
  rintro ⟨t, ht, hnewline⟩
  have hplain (text : List Char) : t ≠ .real text := fun heq => h text (heq ▸ ht)
  exact Token.newline_notMem_chars hplain hnewline

end Json

/-! ## Journals -/

/-- All numbers in a journal are integers. -/
theorem Journal.real_notMem_tokens (x : Journal) (text : List Char) :
    Json.Token.real text ∉ x.toJson.tokens := by
  simp [Journal.toJson, RideState.toJson, Body.toJson, pointToJson, Json.ofFields, Json.ofInt32,
    Json.tokens, Json.memberTokens, Json.itemTokens, Accel.toJson, Rotation.toJson, Json.text]

/-- The journal of a line that is accepted is one line. -/
theorem Journal.oneLine_compact (x : Journal) : OneLine x.toJson.compact :=
  Json.oneLine_compact x.real_notMem_tokens

end RideProof
