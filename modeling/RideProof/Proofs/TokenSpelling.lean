import Mathlib.Data.List.Chain
import Mathlib.Tactic.SplitIfs
import RideProof.Json.Token

/-!
# How tokens are written

The grammar of the data format up to its tokens, and the scanner held to it. The grammar does not
speak of the scanner: a number is a minus sign or none, a whole number without a zero in front, a
fraction or none and an exponent or none; a string is its pieces between quotes, each as it is or as
one of its escapes; a text is its tokens with blanks around them.

* `Numeral` — the parts of a number. `Piece.Writes`, `WritesAll` — strings.
* `Spells` — the texts of one token. `Spaced` — the texts of a list of tokens.
* `scanToken_append` — a token is scanned as a whole, whatever follows, if a number is not followed
  by something that would go on with it (`StopsAt`).
* `scan_of_spaced` — tokens are scanned off every text of theirs, if no number follows a number
  (`Separated`).
* `spaced_of_scan` — what is scanned off a text is spelled by it.
-/

namespace RideProof.Json.Token

open Decimal (isDigit)

/-! ## What numbers and strings look like -/

/-- One decimal digit or more. -/
def IsDigits (cs : List Char) : Prop := cs ≠ [] ∧ ∀ c ∈ cs, isDigit c = true

/-- The digits of a whole number. It has no zero in front of other digits. -/
inductive IsWhole : List Char → Prop
  /-- Zero. -/
  | zero : IsWhole ['0']
  /-- A number that starts with another digit. -/
  | digits {ds : List Char} : IsDigits ds → ds.head? ≠ some '0' → IsWhole ds

/-- A fraction, or none. -/
inductive IsFraction : List Char → Prop
  /-- No fraction. -/
  | none : IsFraction []
  /-- A point and digits. -/
  | digits {ds : List Char} : IsDigits ds → IsFraction ('.' :: ds)

/-- The sign of an exponent, or none. -/
inductive IsSign : List Char → Prop
  /-- No sign. -/
  | none : IsSign []
  /-- A plus sign. -/
  | plus : IsSign ['+']
  /-- A minus sign. -/
  | minus : IsSign ['-']

/-- An exponent, or none. -/
inductive IsExponent : List Char → Prop
  /-- No exponent. -/
  | none : IsExponent []
  /-- A letter, a sign or none, and digits. -/
  | digits {e : Char} {sign ds : List Char} : e = 'e' ∨ e = 'E' → IsSign sign → IsDigits ds →
      IsExponent (e :: sign ++ ds)

/-- The parts of a number. -/
structure Numeral where
  /-- Whether there is a minus sign in front. -/
  minus : Bool
  /-- The whole number. -/
  whole : List Char
  /-- The fraction. -/
  fraction : List Char
  /-- The exponent. -/
  exponent : List Char
  /-- The whole number is one. -/
  isWhole : IsWhole whole
  /-- The fraction is one. -/
  isFraction : IsFraction fraction
  /-- The exponent is one. -/
  isExponent : IsExponent exponent

namespace Numeral

/-- The text of a number without its minus sign. -/
def unsigned (n : Numeral) : List Char := n.whole ++ (n.fraction ++ n.exponent)

/-- The text of a number. -/
def chars (n : Numeral) : List Char := (if n.minus then ['-'] else []) ++ n.unsigned

/-- The token of a number. -/
def token (n : Numeral) : Token := numberToken n.minus n.whole n.fraction n.exponent

end Numeral

/-- How a piece of a string is written. -/
inductive Piece.Writes : Piece → List Char → Prop
  /-- A character as it is. -/
  | plain {c : Char} : 32 ≤ c.toNat → c ≠ '"' → c ≠ '\\' → Writes (.char c) [c]
  /-- A character by a letter. -/
  | letter {e c : Char} : shortEscape e = some c → Writes (.char c) ['\\', e]
  /-- A unit of 16 bits by its four hexadecimal digits. -/
  | unit {a b c d : Char} {v w x y : Nat} : hexValue a = some v → hexValue b = some w →
      hexValue c = some x → hexValue d = some y →
      Writes (pieceOfUnit (4096 * v + 256 * w + 16 * x + y)) ['\\', 'u', a, b, c, d]

/-- How pieces of a string are written, one after the other. -/
inductive WritesAll : List Piece → List Char → Prop
  /-- No piece. -/
  | nil : WritesAll [] []
  /-- One more piece in front. -/
  | cons {p : Piece} {ps : List Piece} {cs ds : List Char} : p.Writes cs → WritesAll ps ds →
      WritesAll (p :: ps) (cs ++ ds)

/-! ## What texts look like -/

/-- The texts of a token. -/
inductive Spells : Token → List Char → Prop
  /-- An opening bracket. -/
  | arrayOpen : Spells .arrayOpen ['[']
  /-- A closing bracket. -/
  | arrayClose : Spells .arrayClose [']']
  /-- An opening brace. -/
  | objectOpen : Spells .objectOpen ['\x7b']
  /-- A closing brace. -/
  | objectClose : Spells .objectClose ['\x7d']
  /-- A comma. -/
  | comma : Spells .comma [',']
  /-- A colon. -/
  | colon : Spells .colon [':']
  /-- The null value. -/
  | null : Spells .null ['n', 'u', 'l', 'l']
  /-- The truth value of what holds. -/
  | boolTrue : Spells (.bool true) ['t', 'r', 'u', 'e']
  /-- The truth value of what does not hold. -/
  | boolFalse : Spells (.bool false) ['f', 'a', 'l', 's', 'e']
  /-- A number. -/
  | number (n : Numeral) : Spells n.token n.chars
  /-- A string; it has no text if it has half a pair alone. -/
  | string {ps : List Piece} {cs : List Char} : WritesAll ps cs →
      Spells (.string ((joinPieces ps).map String.ofList)) ('"' :: cs ++ ['"'])

/-- Characters that may stand between tokens. -/
def Blanks (cs : List Char) : Prop := ∀ c ∈ cs, isBlank c = true

/-- The texts of tokens, with blanks in front of, between and behind them. -/
inductive Spaced : List Token → List Char → Prop
  /-- No token. -/
  | nil {bs : List Char} : Blanks bs → Spaced [] bs
  /-- One more token in front. -/
  | cons {t : Token} {ts : List Token} {bs cs rest : List Char} : Blanks bs → Spells t cs →
      Spaced ts rest → Spaced (t :: ts) (bs ++ (cs ++ rest))

/-! ## Numbers -/

/-- A text does not start with a character of a kind. -/
def StopsAt (p : Char → Bool) (cs : List Char) : Prop := ∀ c ∈ cs.head?, p c = false

/-- Whether a character would go on with a number. -/
def goesOn (c : Char) : Bool := isDigit c || c == '.' || c == 'e' || c == 'E'

variable {cs ds rest : List Char} {t : Token}

/-- A text that stops at a kind of character stops at every narrower one. -/
theorem StopsAt.mono {p q : Char → Bool} (h : StopsAt p cs) (hpq : ∀ c, q c = true → p c = true) :
    StopsAt q cs := by
  intro c hc
  cases hq : q c with
  | false => rfl
  | true => exact absurd (hpq c hq) (Bool.eq_false_iff.mp (h c hc))

/-- What does not go on with a number does not go on with digits. -/
theorem StopsAt.isDigit (h : StopsAt goesOn cs) : StopsAt isDigit cs :=
  h.mono fun c hc => by simp [goesOn, hc]

/-- Digits start with a digit. -/
theorem IsDigits.exists_cons (h : IsDigits ds) : ∃ c cs, ds = c :: cs ∧ isDigit c = true := by
  cases ds with
  | nil => exact absurd rfl h.1
  | cons c cs => exact ⟨c, cs, rfl, h.2 c List.mem_cons_self⟩

/-- A whole number starts with a digit. -/
theorem IsWhole.exists_cons (h : IsWhole ds) : ∃ c cs, ds = c :: cs ∧ isDigit c = true := by
  cases h with
  | zero => exact ⟨'0', [], rfl, by decide⟩
  | digits hds _ => exact hds.exists_cons

/-- Digits are scanned up to a character that is none. -/
theorem scanDigits_append (h : IsDigits ds) (hstop : StopsAt isDigit rest) :
    scanDigits (ds ++ rest) = some (ds, rest) := by
  have htake : rest.takeWhile isDigit = [] := by
    cases rest with
    | nil => rfl
    | cons c cs => exact List.takeWhile_cons_of_neg (Bool.eq_false_iff.mp (hstop c rfl))
  have hdrop : rest.dropWhile isDigit = rest := by
    cases rest with
    | nil => rfl
    | cons c cs => exact List.dropWhile_cons_of_neg (Bool.eq_false_iff.mp (hstop c rfl))
  rw [scanDigits, List.takeWhile_append_of_pos h.2, List.dropWhile_append_of_pos h.2, htake, hdrop,
    List.append_nil]
  obtain ⟨c, ds, rfl, -⟩ := h.exists_cons
  rfl

/-- What is scanned as digits is digits at the start of the text. -/
theorem eq_append_of_scanDigits (h : scanDigits cs = some (ds, rest)) :
    IsDigits ds ∧ cs = ds ++ rest := by
  unfold scanDigits at h
  split at h
  · cases h
  · rename_i hne
    obtain ⟨rfl, rfl⟩ := Prod.mk.inj (Option.some.inj h)
    have hall (c : Char) (hc : c ∈ cs.takeWhile isDigit) : isDigit c = true :=
      List.all_eq_true.mp List.all_takeWhile c hc
    exact ⟨⟨hne, hall⟩, List.takeWhile_append_dropWhile.symm⟩

/-- A whole number is scanned up to a character that is no digit. -/
theorem scanWhole_append (h : IsWhole ds) (hstop : StopsAt isDigit rest) :
    scanWhole (ds ++ rest) = some (ds, rest) := by
  cases h with
  | zero => rfl
  | digits hds hzero =>
    obtain ⟨c, cs, rfl, -⟩ := hds.exists_cons
    unfold scanWhole
    split
    · rename_i hcs
      exact absurd (congrArg some (List.cons.inj hcs).1) hzero
    · exact scanDigits_append hds hstop

/-- What is scanned as a whole number is one at the start of the text. -/
theorem eq_append_of_scanWhole (h : scanWhole cs = some (ds, rest)) :
    IsWhole ds ∧ cs = ds ++ rest := by
  unfold scanWhole at h
  split at h
  · obtain ⟨rfl, rfl⟩ := Prod.mk.inj (Option.some.inj h)
    exact ⟨.zero, rfl⟩
  · rename_i hzero
    obtain ⟨hds, rfl⟩ := eq_append_of_scanDigits h
    refine ⟨.digits hds ?_, rfl⟩
    obtain ⟨c, ds, rfl, -⟩ := hds.exists_cons
    intro hc
    obtain rfl := Option.some.inj hc
    exact hzero _ rfl

/-- A fraction is scanned up to a character that is no digit; to scan none, no point may follow. -/
theorem scanFraction_append (h : IsFraction ds) (hstop : StopsAt isDigit rest)
    (hpoint : ds = [] → StopsAt (· == '.') rest) :
    scanFraction (ds ++ rest) = some (ds, rest) := by
  cases h with
  | none =>
    rw [List.nil_append]
    unfold scanFraction
    split
    · exact absurd (hpoint rfl '.' rfl) (by decide)
    · rfl
  | digits hds =>
    rw [List.cons_append, scanFraction, scanDigits_append hds hstop]
    rfl

/-- What is scanned as a fraction is one at the start of the text. -/
theorem eq_append_of_scanFraction (h : scanFraction cs = some (ds, rest)) :
    IsFraction ds ∧ cs = ds ++ rest := by
  unfold scanFraction at h
  split at h
  · obtain ⟨⟨ds', rest'⟩, hscan, heq⟩ := Option.map_eq_some_iff.mp h
    obtain ⟨rfl, rfl⟩ := Prod.mk.inj heq
    obtain ⟨hds, rfl⟩ := eq_append_of_scanDigits hscan
    exact ⟨.digits hds, rfl⟩
  · obtain ⟨rfl, rfl⟩ := Prod.mk.inj (Option.some.inj h)
    exact ⟨.none, rfl⟩

/-- The sign of an exponent, or none, is scanned in front of digits. -/
theorem scanSign_append (h : IsSign cs) (hds : IsDigits ds) :
    scanSign (cs ++ (ds ++ rest)) = (cs, ds ++ rest) := by
  obtain ⟨c, ds, rfl, hc⟩ := hds.exists_cons
  cases h with
  | none =>
    have hplus : c ≠ '+' := fun heq => absurd (heq ▸ hc) (by decide)
    have hminus : c ≠ '-' := fun heq => absurd (heq ▸ hc) (by decide)
    rw [List.nil_append, List.cons_append]
    unfold scanSign
    split
    · rename_i heq
      exact absurd (List.cons.inj heq).1 hplus
    · rename_i heq
      exact absurd (List.cons.inj heq).1 hminus
    · rfl
  | plus | minus => rfl

/-- What is scanned as the sign of an exponent is one at the start of the text. -/
theorem eq_append_of_scanSign (h : scanSign cs = (ds, rest)) : IsSign ds ∧ cs = ds ++ rest := by
  unfold scanSign at h
  split at h <;> obtain ⟨rfl, rfl⟩ := Prod.mk.inj h
  · exact ⟨.plus, rfl⟩
  · exact ⟨.minus, rfl⟩
  · exact ⟨.none, rfl⟩

/-- An exponent is scanned up to a character that does not go on with it. -/
theorem scanExponent_append (h : IsExponent ds) (hstop : StopsAt goesOn rest) :
    scanExponent (ds ++ rest) = some (ds, rest) := by
  cases h with
  | none =>
    cases rest with
    | nil => rfl
    | cons c cs =>
      have hc := hstop c rfl
      have hletter : ¬(c = 'e' ∨ c = 'E') := by
        rintro (rfl | rfl) <;> exact absurd hc (by decide)
      rw [List.nil_append, scanExponent, if_neg hletter]
  | @digits e sign ds he hsign hds =>
    change scanExponent (e :: (sign ++ ds ++ rest)) = some (e :: (sign ++ ds), rest)
    rw [List.append_assoc, scanExponent, if_pos he, scanSign_append hsign hds]
    dsimp only
    rw [scanDigits_append hds hstop.isDigit]
    rfl

/-- What is scanned as an exponent is one at the start of the text. -/
theorem eq_append_of_scanExponent (h : scanExponent cs = some (ds, rest)) :
    IsExponent ds ∧ cs = ds ++ rest := by
  unfold scanExponent at h
  split at h
  · split_ifs at h with he
    · rename_i c cs
      rcases hscan : scanSign cs with ⟨sign, after⟩
      obtain ⟨hsign, rfl⟩ := eq_append_of_scanSign hscan
      rw [hscan] at h
      obtain ⟨⟨ds', rest'⟩, hscan, heq⟩ := Option.map_eq_some_iff.mp h
      obtain ⟨rfl, rfl⟩ := Prod.mk.inj heq
      obtain ⟨hds, rfl⟩ := eq_append_of_scanDigits hscan
      refine ⟨.digits he hsign hds, ?_⟩
      rw [List.cons_append, List.cons_append, List.append_assoc]
    · obtain ⟨rfl, rfl⟩ := Prod.mk.inj (Option.some.inj h)
      exact ⟨.none, rfl⟩
  · obtain ⟨rfl, rfl⟩ := Prod.mk.inj (Option.some.inj h)
    exact ⟨.none, rfl⟩

/-- A fraction, or what follows it, does not go on with the digits in front. -/
theorem IsFraction.stopsAt (h : IsFraction ds) (hstop : StopsAt isDigit rest) :
    StopsAt isDigit (ds ++ rest) := by
  cases h with
  | none => exact hstop
  | digits _ =>
    intro c hc
    obtain rfl := Option.some.inj hc
    decide

/-- An exponent, or what follows it, does not go on with the number in front. -/
theorem IsExponent.stopsAt (h : IsExponent ds) (hstop : StopsAt goesOn rest) :
    StopsAt (fun c => isDigit c || c == '.') (ds ++ rest) := by
  cases h with
  | none => exact hstop.mono fun c hc => by simp_all [goesOn]
  | digits he =>
    intro c hc
    obtain rfl := Option.some.inj hc
    rcases he with rfl | rfl <;> decide

/-- A number is scanned as a whole if what follows does not go on with it. -/
theorem scanUnsigned_append (n : Numeral) (hstop : StopsAt goesOn rest) :
    scanUnsigned n.minus (n.unsigned ++ rest) = some (n.token, rest) := by
  have hexponent := n.isExponent.stopsAt hstop
  have hdigit : StopsAt isDigit (n.exponent ++ rest) := hexponent.mono fun c hc => by simp [hc]
  have hpoint : StopsAt (· == '.') (n.exponent ++ rest) :=
    hexponent.mono fun c hc => by simp [eq_of_beq hc]
  have hwhole := scanWhole_append n.isWhole (n.isFraction.stopsAt hdigit)
  have hfraction := scanFraction_append n.isFraction hdigit fun _ => hpoint
  rw [Numeral.unsigned, List.append_assoc, List.append_assoc, scanUnsigned, hwhole,
    Option.bind_eq_bind, Option.bind_some]
  dsimp only
  rw [hfraction, Option.bind_some]
  dsimp only
  rw [scanExponent_append n.isExponent hstop]
  rfl

/-- What is scanned as a number, with or without its minus sign, is the rest of one. -/
theorem eq_append_of_scanUnsigned {minus : Bool} (h : scanUnsigned minus cs = some (t, rest)) :
    ∃ n : Numeral, n.minus = minus ∧ n.token = t ∧ cs = n.unsigned ++ rest := by
  simp only [scanUnsigned, Option.bind_eq_bind, Option.bind_eq_some_iff, Option.pure_def,
    Option.some.injEq, Prod.mk.injEq, Prod.exists] at h
  obtain ⟨whole, _, hwhole, fraction, _, hfraction, exponent, _, hexponent, rfl, rfl⟩ := h
  obtain ⟨isWhole, rfl⟩ := eq_append_of_scanWhole hwhole
  obtain ⟨isFraction, rfl⟩ := eq_append_of_scanFraction hfraction
  obtain ⟨isExponent, rfl⟩ := eq_append_of_scanExponent hexponent
  refine ⟨⟨minus, whole, fraction, exponent, isWhole, isFraction, isExponent⟩, rfl, rfl, ?_⟩
  rw [Numeral.unsigned, List.append_assoc, List.append_assoc]

/-! ## Strings -/

/-- A letter is scanned as the character that it stands for. -/
theorem scanEscape_letter {e c : Char} (h : shortEscape e = some c) :
    scanEscape (e :: rest) = some (.char c, rest) := by
  unfold scanEscape
  split
  · rename_i heq
    obtain rfl := (List.cons.inj heq).1
    cases (show shortEscape 'u' = none by decide).symm.trans h
  · rename_i heq
    obtain ⟨rfl, rfl⟩ := List.cons.inj heq
    rw [h]
    rfl
  · rename_i heq
    cases heq

/-- Four hexadecimal digits are scanned as the unit that they stand for. -/
theorem scanEscape_unit {a b c d : Char} {v w x y : Nat} (ha : hexValue a = some v)
    (hb : hexValue b = some w) (hc : hexValue c = some x) (hd : hexValue d = some y) :
    scanEscape ('u' :: a :: b :: c :: d :: rest) =
      some (pieceOfUnit (4096 * v + 256 * w + 16 * x + y), rest) := by
  rw [scanEscape, ha, hb, hc, hd]
  rfl

/-- What follows a backslash is an escape. -/
theorem writes_of_scanEscape {p : Piece} (h : scanEscape cs = some (p, rest)) :
    ∃ ds, p.Writes ('\\' :: ds) ∧ cs = ds ++ rest := by
  unfold scanEscape at h
  split at h
  · simp only [Option.bind_eq_bind, Option.bind_eq_some_iff, Option.pure_def, Option.some.injEq,
      Prod.mk.injEq] at h
    obtain ⟨v, hv, w, hw, x, hx, y, hy, rfl, rfl⟩ := h
    exact ⟨_, .unit hv hw hx hy, rfl⟩
  · obtain ⟨c, hc, heq⟩ := Option.map_eq_some_iff.mp h
    obtain ⟨rfl, rfl⟩ := Prod.mk.inj heq
    exact ⟨_, .letter hc, rfl⟩
  · cases h

/-- A string that starts with an escape goes on behind it. -/
theorem scanString_escape {p : Piece} (h : scanEscape cs = some (p, rest)) :
    scanString ('\\' :: cs) = (scanString rest).map fun r => (p :: r.1, r.2) := by
  rw [scanString]
  split
  · rename_i heq
    obtain ⟨rfl, rfl⟩ := Prod.mk.inj (Option.some.inj (h.symm.trans heq))
    rfl
  · rename_i heq
    cases h.symm.trans heq

/-- A string is scanned up to the quote that closes it. -/
theorem scanString_append {ps : List Piece} (h : WritesAll ps cs) :
    scanString (cs ++ '"' :: rest) = some (ps, rest) := by
  induction h with
  | nil => rw [List.nil_append, scanString]
  | @cons p ps cs ds hp hps ih =>
    rw [List.append_assoc]
    cases hp with
    | @plain c hcontrol hquote hbackslash =>
      rw [List.singleton_append, scanString, if_neg (by omega), ih]
      · rfl
      · exact hquote
      · exact hbackslash
    | letter he =>
      rw [List.cons_append, List.singleton_append, scanString_escape (scanEscape_letter he), ih]
      rfl
    | unit ha hb hc hd =>
      simp only [List.cons_append, List.nil_append]
      rw [scanString_escape (scanEscape_unit ha hb hc hd), ih]
      rfl

/-- What is scanned as a string is its pieces up to a quote. -/
theorem writesAll_of_scanString {ps : List Piece} (h : scanString cs = some (ps, rest)) :
    ∃ ds, WritesAll ps ds ∧ cs = ds ++ '"' :: rest := by
  fun_induction scanString cs generalizing ps rest with
  | case2 rest' =>
    obtain ⟨rfl, rfl⟩ := Prod.mk.inj (Option.some.inj h)
    exact ⟨[], .nil, rfl⟩
  | case3 after p after' hescape ih =>
    obtain ⟨⟨ps', rest'⟩, hscan, heq⟩ := Option.map_eq_some_iff.mp h
    obtain ⟨rfl, rfl⟩ := Prod.mk.inj heq
    obtain ⟨ds, hds, rfl⟩ := ih hscan
    obtain ⟨es, hes, rfl⟩ := writes_of_scanEscape hescape
    refine ⟨'\\' :: es ++ ds, .cons hes hds, ?_⟩
    rw [List.cons_append, List.cons_append, List.append_assoc]
  | case6 c after hquote hbackslash hcontrol ih =>
    obtain ⟨⟨ps', rest'⟩, hscan, heq⟩ := Option.map_eq_some_iff.mp h
    obtain ⟨rfl, rfl⟩ := Prod.mk.inj heq
    obtain ⟨ds, hds, rfl⟩ := ih hscan
    exact ⟨c :: ds, .cons (.plain (by omega) hquote hbackslash) hds, rfl⟩
  | _ => cases h

/-! ## Tokens -/

/-- Whether a token is a number. -/
def isNumber : Token → Bool
  | .int _ | .real _ => true
  | _ => false

/-- The token of a number is one. -/
theorem isNumber_token (n : Numeral) : n.token.isNumber = true := by
  unfold Numeral.token numberToken
  split <;> rfl

/-- The text of a number without its minus sign starts with a digit. -/
theorem Numeral.exists_cons (n : Numeral) :
    ∃ c cs, n.unsigned = c :: cs ∧ isDigit c = true := by
  obtain ⟨c, cs, hwhole, hc⟩ := n.isWhole.exists_cons
  exact ⟨c, cs ++ (n.fraction ++ n.exponent), by rw [unsigned, hwhole, List.cons_append], hc⟩

/-- What starts with a digit is scanned as a number. -/
theorem scanToken_digit {c : Char} (hc : isDigit c = true) :
    scanToken (c :: cs) = scanUnsigned false (c :: cs) := by
  unfold scanToken
  split
  case h_12 => rfl
  all_goals
    rename_i heq
    obtain rfl := (List.cons.inj heq).1
    exact absurd hc (by decide)

/-- A number is scanned as a whole, with its minus sign or without, if what follows does not go on
with it. -/
theorem scanToken_numeral (n : Numeral) (hstop : StopsAt goesOn rest) :
    scanToken (n.chars ++ rest) = some (n.token, rest) := by
  have hscan := scanUnsigned_append n hstop
  cases hminus : n.minus with
  | true =>
    rw [hminus] at hscan
    rw [Numeral.chars, hminus, if_pos rfl]
    exact hscan
  | false =>
    obtain ⟨c, cs, hcs, hc⟩ := n.exists_cons
    rw [hminus, hcs] at hscan
    rw [Numeral.chars, hminus, if_neg (by decide), hcs]
    exact (scanToken_digit hc).trans hscan

/-- A digit is no blank. -/
theorem isBlank_of_isDigit {c : Char} (h : isDigit c = true) : isBlank c = false := by
  cases hblank : isBlank c with
  | false => rfl
  | true =>
    simp only [isBlank, Bool.or_eq_true, beq_iff_eq] at hblank
    rcases hblank with ((rfl | rfl) | rfl) | rfl <;> exact absurd h (by decide)

/-- A token is written from a character on that is no blank and would not go on with a number that
stands in front of it, unless it is a number. -/
theorem Spells.exists_cons (h : Spells t cs) :
    ∃ c ds, cs = c :: ds ∧ isBlank c = false ∧ (t.isNumber = false → goesOn c = false) := by
  cases h with
  | number n =>
    have hnumber (c : Char) (h : n.token.isNumber = false) : goesOn c = false :=
      absurd h (by simp [isNumber_token n])
    obtain ⟨c, cs, hcs, hc⟩ := n.exists_cons
    cases hminus : n.minus with
    | true =>
      refine ⟨'-', n.unsigned, ?_, by decide, hnumber _⟩
      rw [Numeral.chars, hminus, if_pos rfl, List.singleton_append]
    | false =>
      refine ⟨c, cs, ?_, isBlank_of_isDigit hc, hnumber c⟩
      rw [Numeral.chars, hminus, if_neg (by decide), hcs, List.nil_append]
  | _ => exact ⟨_, _, rfl, by decide, fun _ => by decide⟩

/-- A token is scanned as a whole; only a number depends on what follows it. -/
theorem scanToken_append (h : Spells t cs) (hstop : t.isNumber = true → StopsAt goesOn rest) :
    scanToken (cs ++ rest) = some (t, rest) := by
  cases h with
  | number n => exact scanToken_numeral n (hstop (isNumber_token n))
  | string hps =>
    rw [List.append_assoc, List.cons_append]
    change (scanString _).map _ = _
    rw [List.singleton_append, scanString_append hps]
    rfl
  | _ => rfl

/-- What is scanned as a token is spelled at the start of the text. -/
theorem spells_of_scanToken (h : scanToken cs = some (t, rest)) :
    ∃ ds, Spells t ds ∧ cs = ds ++ rest := by
  unfold scanToken at h
  split at h
  case h_10 =>
    obtain ⟨⟨ps, rest'⟩, hscan, heq⟩ := Option.map_eq_some_iff.mp h
    obtain ⟨rfl, rfl⟩ := Prod.mk.inj heq
    obtain ⟨ds, hds, rfl⟩ := writesAll_of_scanString hscan
    refine ⟨_, .string hds, ?_⟩
    rw [List.append_assoc, List.cons_append]
    rfl
  case h_11 =>
    obtain ⟨n, hminus, rfl, rfl⟩ := eq_append_of_scanUnsigned h
    refine ⟨n.chars, .number n, ?_⟩
    rw [Numeral.chars, hminus]
    rfl
  case h_12 =>
    obtain ⟨n, hminus, rfl, rfl⟩ := eq_append_of_scanUnsigned h
    refine ⟨n.chars, .number n, ?_⟩
    rw [Numeral.chars, hminus]
    rfl
  all_goals
    obtain ⟨rfl, rfl⟩ := Prod.mk.inj (Option.some.inj h)
    exact ⟨_, by constructor, rfl⟩

/-! ## Texts -/

variable {ts : List Token} {bs : List Char}

/-- A blank does not go on with a number. -/
theorem goesOn_of_isBlank {c : Char} (h : isBlank c = true) : goesOn c = false := by
  simp only [isBlank, Bool.or_eq_true, beq_iff_eq] at h
  rcases h with ((rfl | rfl) | rfl) | rfl <;> decide

/-- No number stands right behind a number, so that no text is one number or two. -/
def Separated (ts : List Token) : Prop :=
  ts.IsChain fun t u => t.isNumber = true → u.isNumber = false

/-- A number in front of a text of further tokens ends where they start. -/
theorem Spaced.stopsAt (h : Spaced ts cs) (hfirst : ∀ t ∈ ts.head?, t.isNumber = false) :
    StopsAt goesOn cs := by
  cases h with
  | nil hbs => exact fun c hc => goesOn_of_isBlank (hbs c (List.mem_of_mem_head? hc))
  | @cons t ts bs ds rest hbs hds _ =>
    cases bs with
    | nil =>
      obtain ⟨d, es, rfl, -, hd⟩ := hds.exists_cons
      intro c hc
      obtain rfl := Option.some.inj hc
      exact hd (hfirst t rfl)
    | cons b bs =>
      intro c hc
      obtain rfl := Option.some.inj hc
      exact goesOn_of_isBlank (hbs _ List.mem_cons_self)

/-- Blanks may be put in front of a text. -/
theorem Spaced.blank_append (hbs : Blanks bs) (h : Spaced ts cs) : Spaced ts (bs ++ cs) := by
  have hblanks {as : List Char} (has : Blanks as) : Blanks (bs ++ as) :=
    List.forall_mem_append.mpr ⟨hbs, has⟩
  cases h with
  | nil has => exact .nil (hblanks has)
  | cons has ht hrest =>
    rw [← List.append_assoc]
    exact .cons (hblanks has) ht hrest

/-- Blanks in front of a text do not count. -/
theorem scanWith_blanks (hbs : Blanks bs)
    (h : ∀ fuel, cs.length ≤ fuel → scanWith fuel cs = some ts) :
    ∀ fuel, (bs ++ cs).length ≤ fuel → scanWith fuel (bs ++ cs) = some ts := by
  induction bs with
  | nil => exact h
  | cons b bs ih =>
    obtain ⟨hb, hbs⟩ := List.forall_mem_cons.mp hbs
    intro fuel hfuel
    obtain _ | fuel := fuel
    · cases hfuel
    rw [List.cons_append, scanWith, if_pos hb]
    exact ih hbs fuel (Nat.le_of_succ_le_succ hfuel)

/-- Tokens are scanned off every text of theirs, in as many steps as it has characters. -/
theorem scanWith_of_spaced (h : Spaced ts cs) (hsep : Separated ts) :
    ∀ fuel, cs.length ≤ fuel → scanWith fuel cs = some ts := by
  induction h with
  | @nil bs hbs =>
    rw [← List.append_nil bs]
    exact scanWith_blanks hbs fun fuel _ => by rw [scanWith]
  | @cons t ts bs cs rest hbs ht hrest ih =>
    refine scanWith_blanks hbs fun fuel hfuel => ?_
    -- what follows a number starts with a blank or with a token that is none
    have hscan : scanToken (cs ++ rest) = some (t, rest) := by
      refine scanToken_append ht fun hnumber => hrest.stopsAt fun u hu => ?_
      exact List.IsChain.rel_head? hsep hu hnumber
    obtain ⟨c, ds, rfl, hblank, -⟩ := ht.exists_cons
    obtain _ | fuel := fuel
    · cases hfuel
    rw [List.cons_append] at hscan ⊢
    rw [scanWith, if_neg (by simp [hblank]), hscan]
    dsimp only
    rw [ih hsep.tail fuel (by simp at hfuel; omega)]
    rfl

/-- Tokens are scanned off every text of theirs. -/
theorem scan_of_spaced (h : Spaced ts cs) (hsep : Separated ts) : scan cs = some ts :=
  scanWith_of_spaced h hsep cs.length le_rfl

/-- What is scanned off a text, in however many steps, is spelled by it. -/
theorem spaced_of_scanWith {fuel : Nat} (h : scanWith fuel cs = some ts) : Spaced ts cs := by
  fun_induction scanWith fuel cs generalizing ts with
  | case1 =>
    obtain rfl := Option.some.inj h
    exact .nil (List.forall_mem_nil _)
  | case2 => cases h
  | case3 fuel c cs hblank ih =>
    have hc : Blanks [c] := List.forall_mem_singleton.mpr hblank
    exact Spaced.blank_append hc (ih h)
  | case4 => cases h
  | case5 fuel c cs hblank t rest hscan ih =>
    obtain ⟨us, hus, rfl⟩ := Option.map_eq_some_iff.mp h
    obtain ⟨ds, hds, hcs⟩ := spells_of_scanToken hscan
    have hnone : Blanks [] := List.forall_mem_nil _
    rw [hcs]
    exact .cons hnone hds (ih hus)

/-- What is scanned off a text is spelled by it. -/
theorem spaced_of_scan (h : scan cs = some ts) : Spaced ts cs := spaced_of_scanWith h

end RideProof.Json.Token
