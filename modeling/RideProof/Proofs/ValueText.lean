import Mathlib.Data.List.Chain
import Mathlib.Tactic.SplitIfs
import RideProof.Json.Parser
import RideProof.Json.Printer
import RideProof.Proofs.TokenSpelling

/-!
# The texts of values

A text spells a value if it is the tokens of the value, each in one of its spellings, with blanks
anywhere between them. The reader reads a value off a text exactly if the text spells it, and what
the writer writes is one of the texts.

* `Machine.run_tokens` — the machine goes over the tokens of a value to the value, whatever is open
  around it.
* `Machine.tokens`, `Machine.tokens_step` — the tokens that a machine has read, and that a step adds
  its token to them.
* `Json.Spelled`, `Json.ofText?_eq_some_iff` — the texts of a value.
* `Json.spelled_compact` — the text without blanks.
-/

namespace RideProof.Json

/-! ## The machine on the tokens of a value -/

namespace Machine

/-- An array that is not empty goes on as if a value had to follow. -/
theorem run_firstItem {items : List Json} (h : items ≠ []) (stack : List Frame)
    (ts : List Token) :
    (Machine.mk .firstItem stack).run (itemTokens items ++ ts) =
      (Machine.mk .value stack).run (itemTokens items ++ ts) := by
  obtain _ | ⟨v, vs⟩ := items
  · exact absurd rfl h
  · cases v <;> cases vs <;> rfl

/-- An object that is not empty goes on as if a key had to follow. -/
theorem run_firstKey {members : List Member} (h : members ≠ []) (stack : List Frame)
    (ts : List Token) :
    (Machine.mk .firstKey stack).run (memberTokens members ++ ts) =
      (Machine.mk (.key []) stack).run (memberTokens members ++ ts) := by
  obtain _ | ⟨m, ms⟩ := members
  · exact absurd rfl h
  · cases ms <;> rfl

mutual

/-- The machine goes over the tokens of a value to the value. -/
theorem run_tokens : ∀ (v : Json) (stack : List Frame) (ts : List Token),
    (Machine.mk .value stack).run (v.tokens ++ ts) = (Machine.mk (.done v) stack).run ts
  | .null, _, _ | .bool _, _, _ | .int _, _, _ | .real _, _, _ | .string _, _, _ => rfl
  | .array items, stack, ts => by
    by_cases hnil : items = []
    · subst hnil
      rfl
    rw [tokens, List.cons_append, List.cons_append, List.append_assoc]
    change (Machine.mk .firstItem (.array [] :: stack)).run _ = _
    rw [run_firstItem hnil]
    exact run_itemTokens items hnil [] stack ts
  | .object members, stack, ts => by
    by_cases hnil : members = []
    · subst hnil
      rfl
    rw [tokens, List.cons_append, List.cons_append, List.append_assoc]
    change (Machine.mk .firstKey stack).run _ = _
    rw [run_firstKey hnil]
    exact run_memberTokens members hnil [] stack ts

/-- The machine goes over the items of an array to the array. -/
theorem run_itemTokens : ∀ (items : List Json), items ≠ [] → ∀ (before : List Json)
    (stack : List Frame) (ts : List Token),
    (Machine.mk .value (.array before :: stack)).run (itemTokens items ++ .arrayClose :: ts) =
      (Machine.mk (.done (.array (before.reverse ++ items))) stack).run ts
  | [], h, _, _, _ => absurd rfl h
  | [v], _, before, stack, ts => by
    rw [itemTokens, run_tokens v]
    change (Machine.mk (.done (.array (v :: before).reverse)) stack).run ts = _
    rw [List.reverse_cons]
  | v :: w :: vs, _, before, stack, ts => by
    have hrest := run_itemTokens (w :: vs) (List.cons_ne_nil w vs) (v :: before) stack ts
    rw [List.reverse_cons, List.append_assoc] at hrest
    rw [itemTokens, List.append_assoc, run_tokens v]
    · exact hrest
    · nofun

/-- The machine goes over the members of an object to the object. -/
theorem run_memberTokens : ∀ (members : List Member), members ≠ [] → ∀ (before : List Member)
    (stack : List Frame) (ts : List Token),
    (Machine.mk (.key before) stack).run (memberTokens members ++ .objectClose :: ts) =
      (Machine.mk (.done (.object (before.reverse ++ members))) stack).run ts
  | [], h, _, _, _ => absurd rfl h
  | [(k, v)], _, before, stack, ts => by
    have hvalue := run_tokens v (.object before k :: stack) (.objectClose :: ts)
    have hclose : (Machine.mk (.done v) (.object before k :: stack)).run (.objectClose :: ts) =
        (Machine.mk (.done (.object ((k, v) :: before).reverse)) stack).run ts := rfl
    rw [List.reverse_cons] at hclose
    exact hvalue.trans hclose
  | (k, v) :: m :: ms, _, before, stack, ts => by
    have hvalue := run_tokens v (.object before k :: stack)
      (.comma :: (memberTokens (m :: ms) ++ .objectClose :: ts))
    have hrest := run_memberTokens (m :: ms) (List.cons_ne_nil m ms) ((k, v) :: before) stack ts
    rw [List.reverse_cons, List.append_assoc] at hrest
    rw [memberTokens, List.append_assoc]
    · exact hvalue.trans hrest
    · nofun

end

end Machine

/-- A value is read off its tokens. -/
theorem ofTokens?_tokens (j : Json) : ofTokens? j.tokens = some j := by
  have h := Machine.run_tokens j [] []
  rw [List.append_nil] at h
  rw [ofTokens?, Machine.start, h]
  rfl

/-! ## What a machine has read -/

/-- The tokens of items in front of another item. -/
def itemsBefore (items : List Json) : List Token := items.flatMap fun v => v.tokens ++ [.comma]

/-- The tokens of members in front of another member. -/
def membersBefore (members : List Member) : List Token :=
  members.flatMap fun m => .string m.1 :: .colon :: m.2.tokens ++ [.comma]

/-- The tokens of items with one more at the end. -/
theorem itemTokens_append (items : List Json) (v : Json) :
    itemTokens (items ++ [v]) = itemsBefore items ++ v.tokens := by
  induction items with
  | nil => rfl
  | cons w items ih =>
    rw [List.cons_append, itemTokens, ih, itemsBefore, itemsBefore, List.flatMap_cons]
    · simp only [List.append_assoc, List.cons_append, List.nil_append]
    · simp

/-- The tokens of members with one more at the end. -/
theorem memberTokens_append (members : List Member) (k : Option String) (v : Json) :
    memberTokens (members ++ [(k, v)]) =
      membersBefore members ++ .string k :: .colon :: v.tokens := by
  induction members with
  | nil => rfl
  | cons m members ih =>
    rw [List.cons_append, memberTokens, ih, membersBefore, membersBefore, List.flatMap_cons]
    · simp only [List.append_assoc, List.cons_append, List.nil_append]
    · simp

/-- The tokens of an array or object up to the value that is read inside it. -/
def Frame.tokens : Frame → List Token
  | .array items => .arrayOpen :: itemsBefore items.reverse
  | .object members k => .objectOpen :: membersBefore members.reverse ++ [.string k, .colon]

/-- The tokens that are read and belong to no frame on the stack. -/
def Mode.tokens : Mode → List Token
  | .value | .firstItem => []
  | .firstKey => [.objectOpen]
  | .key members => .objectOpen :: membersBefore members.reverse
  | .colon members k => .objectOpen :: membersBefore members.reverse ++ [.string k]
  | .done v => v.tokens

namespace Machine

/-- The tokens that a machine has read. -/
def tokens (m : Machine) : List Token := m.stack.reverse.flatMap Frame.tokens ++ m.mode.tokens

/-- A machine that waits for a first item has just opened the array. -/
def Opened (m : Machine) : Prop :=
  match m.mode with
  | .firstItem => m.stack.head? = some (.array [])
  | _ => True

variable {m m' : Machine} {t : Token} {ts : List Token}

/-- A value that starts adds its first token to what is read. -/
theorem tokens_open {stack : List Frame} (h : open? stack t = some m) :
    m.tokens = stack.reverse.flatMap Frame.tokens ++ [t] ∧ m.Opened := by
  unfold open? at h
  split at h <;> cases h <;>
    simp [tokens, Opened, Mode.tokens, Frame.tokens, Json.tokens, itemsBefore]

/-- A token behind a value is added to what is read, whether it closes a frame or leads on in
one. -/
theorem tokens_close {v : Json} {stack : List Frame} (h : close? v stack t = some m) :
    m.tokens = stack.reverse.flatMap Frame.tokens ++ v.tokens ++ [t] ∧ m.Opened := by
  unfold close? at h
  split at h <;> cases h <;>
    simp [tokens, Opened, Mode.tokens, Frame.tokens, Json.tokens, itemsBefore, membersBefore,
      itemTokens_append, memberTokens_append]

/-- An array that was just opened goes on with a value unless it is closed. -/
theorem step_firstItem {stack : List Frame} (ht : t ≠ .arrayClose) :
    (Machine.mk .firstItem stack).step t = open? stack t := by
  cases t with
  | arrayClose => exact absurd rfl ht
  | _ => rfl

/-- A step adds its token to what is read. -/
theorem tokens_step (h : m.step t = some m') (hm : m.Opened) :
    m'.tokens = m.tokens ++ [t] ∧ m'.Opened := by
  obtain ⟨mode, stack⟩ := m
  cases mode with
  | value =>
    obtain ⟨htokens, hm'⟩ := tokens_open h
    exact ⟨by rw [htokens, tokens, Mode.tokens, List.append_nil], hm'⟩
  | firstItem =>
    by_cases ht : t = .arrayClose
    · subst ht
      -- the array that ends is the one that was just opened, so it has no items
      obtain ⟨rest, rfl⟩ := List.head?_eq_some_iff.mp hm
      cases h
      simp [tokens, Opened, Mode.tokens, Frame.tokens, itemsBefore, Json.tokens, itemTokens]
    · obtain ⟨htokens, hm'⟩ := tokens_open ((step_firstItem ht).symm.trans h)
      exact ⟨by rw [htokens, tokens, Mode.tokens, List.append_nil], hm'⟩
  | firstKey =>
    cases t <;> cases h <;>
      simp [tokens, Opened, Mode.tokens, membersBefore, Json.tokens, memberTokens]
  | key members =>
    cases t <;> cases h
    simp [tokens, Opened, Mode.tokens]
  | colon members k =>
    cases t <;> cases h
    simp [tokens, Opened, Mode.tokens, Frame.tokens]
  | done v => exact tokens_close h

/-- What is read after several tokens is what was read before, and the tokens. -/
theorem tokens_run (h : m.run ts = some m') (hm : m.Opened) :
    m'.tokens = m.tokens ++ ts := by
  induction ts generalizing m with
  | nil =>
    obtain rfl := Option.some.inj h
    rw [List.append_nil]
  | cons t ts ih =>
    obtain ⟨m₁, hstep, hrun⟩ := Option.bind_eq_some_iff.mp h
    obtain ⟨htokens, hm₁⟩ := tokens_step hstep hm
    rw [ih hrun hm₁, htokens, List.append_assoc, List.singleton_append]

end Machine

variable {j : Json} {ts : List Token} {cs : List Char} {text : String}

/-- Tokens are read as a value exactly if they are its tokens. -/
theorem ofTokens?_eq_some_iff : ofTokens? ts = some j ↔ ts = j.tokens := by
  constructor
  · intro h
    obtain ⟨⟨mode, stack⟩, hrun, hresult⟩ := Option.bind_eq_some_iff.mp h
    have htokens : ts = Machine.tokens ⟨mode, stack⟩ := (Machine.tokens_run hrun trivial).symm
    unfold Machine.result? at hresult
    split at hresult
    · rename_i hmode hstack
      cases hresult
      cases hmode
      cases hstack
      exact htokens
    · cases hresult
  · rintro rfl
    exact ofTokens?_tokens j

/-! ## Texts -/

section

open Token

variable {t u : Token} {us : List Token}

/-- A token that is no number may be put in front of separated tokens. -/
theorem Token.Separated.cons (ht : t.isNumber = false) (h : Separated ts) : Separated (t :: ts) :=
  List.IsChain.cons h fun _ _ hnumber => absurd hnumber (by simp [ht])

/-- Separated tokens stay so in front of others that start with no number. -/
theorem Token.Separated.append (hts : Separated ts) (hu : u.isNumber = false)
    (hus : Separated (u :: us)) : Separated (ts ++ u :: us) := by
  refine List.IsChain.append hts hus fun t _ v hv _ => ?_
  obtain rfl := Option.some.inj hv
  exact hu

mutual

/-- No number of a value stands right behind another. -/
theorem separated_tokens : ∀ v : Json, Separated v.tokens
  | .null | .bool _ | .int _ | .real _ | .string _ => List.isChain_singleton _
  | .array items => by
    rw [tokens]
    exact ((separated_itemTokens items).append rfl (List.isChain_singleton _)).cons rfl
  | .object members => by
    rw [tokens]
    exact ((separated_memberTokens members).append rfl (List.isChain_singleton _)).cons rfl

/-- No number of an array stands right behind another. -/
theorem separated_itemTokens : ∀ items : List Json, Separated (itemTokens items)
  | [] => List.isChain_nil
  | [v] => by
    rw [itemTokens]
    exact separated_tokens v
  | v :: w :: vs => by
    rw [itemTokens]
    · exact (separated_tokens v).append rfl ((separated_itemTokens (w :: vs)).cons rfl)
    · nofun

/-- No number of an object stands right behind another. -/
theorem separated_memberTokens : ∀ members : List Member, Separated (memberTokens members)
  | [] => List.isChain_nil
  | [(k, v)] => by
    rw [memberTokens]
    exact ((separated_tokens v).cons rfl).cons rfl
  | (k, v) :: m :: ms => by
    rw [memberTokens]
    · have hrest := (separated_memberTokens (m :: ms)).cons (t := .comma) rfl
      exact (((separated_tokens v).append rfl hrest).cons rfl).cons rfl
    · nofun

end

end

/-- The texts of a value. -/
def Spelled (j : Json) (cs : List Char) : Prop := Token.Spaced j.tokens cs

/-- A text is read as a value exactly if it spells the value. -/
theorem ofText?_eq_some_iff : ofText? text = some j ↔ j.Spelled text.toList := by
  rw [ofText?, Option.bind_eq_some_iff, Spelled]
  constructor
  · rintro ⟨ts, hscan, hts⟩
    rw [← ofTokens?_eq_some_iff.mp hts]
    exact Token.spaced_of_scan hscan
  · intro h
    exact ⟨j.tokens, Token.scan_of_spaced h j.separated_tokens, ofTokens?_tokens j⟩

end RideProof.Json

/-! ## What is written -/

namespace RideProof

namespace Decimal

/-- The digit of a number below ten is a decimal digit. -/
theorem isDigit_digit {n : Nat} (h : n < 10) : isDigit (digit n) = true := by
  have all : ∀ k : Fin 10, isDigit (digit k.val) = true := by decide
  exact all ⟨n, h⟩

/-- The digit of a positive number is not zero. -/
theorem digit_ne_zero {n : Nat} (h : n < 10) (hpos : 0 < n) : digit n ≠ '0' := by
  have all : ∀ k : Fin 10, 0 < k.val → digit k.val ≠ '0' := by decide
  exact all ⟨n, h⟩ hpos

/-- A positive number is written from a digit on that is not zero, all in digits. -/
theorem push_eq_cons (n : Nat) (hpos : 0 < n) (rest : List Char) :
    ∃ c ds, push n rest = c :: ds ++ rest ∧ c ≠ '0' ∧ ∀ d ∈ c :: ds, isDigit d = true := by
  fun_induction push n rest with
  | case1 n rest h =>
    exact ⟨digit n, [], rfl, digit_ne_zero h hpos, List.forall_mem_singleton.mpr (isDigit_digit h)⟩
  | case2 n rest h ih =>
    obtain ⟨c, ds, hpush, hc, hds⟩ := ih (Nat.div_pos (by omega) (by decide))
    have hlast : isDigit (digit (n % 10)) = true := isDigit_digit (Nat.mod_lt n (by decide))
    refine ⟨c, ds ++ [digit (n % 10)], ?_, hc, ?_⟩
    · rw [hpush, ← List.cons_append, List.append_assoc, List.singleton_append]
    · rw [← List.cons_append]
      exact List.forall_mem_append.mpr ⟨hds, List.forall_mem_singleton.mpr hlast⟩

end Decimal

namespace Json

namespace Token

open Decimal (digit isDigit)

/-- A natural number is written as a whole number. -/
theorem isWhole_ofNat (n : Nat) : IsWhole (Decimal.ofNat n) := by
  obtain rfl | hpos := Nat.eq_zero_or_pos n
  · rw [Decimal.ofNat, Decimal.push, if_pos (by decide)]
    exact .zero
  · obtain ⟨c, ds, hpush, hc, hds⟩ := Decimal.push_eq_cons n hpos []
    rw [List.append_nil] at hpush
    rw [Decimal.ofNat, hpush]
    exact .digits ⟨List.cons_ne_nil c ds, hds⟩ fun h => hc (Option.some.inj h)

/-- The parts of an integer. -/
def numeral (n : Int) : Numeral where
  minus := decide (n < 0)
  whole := Decimal.ofNat n.natAbs
  fraction := []
  exponent := []
  isWhole := isWhole_ofNat n.natAbs
  isFraction := .none
  isExponent := .none

/-- The text of the parts of an integer is that which is written for it. -/
theorem chars_numeral (n : Int) : (numeral n).chars = Decimal.ofInt n := by
  rw [Numeral.chars, Numeral.unsigned, numeral, Decimal.ofInt]
  simp only [List.append_nil, decide_eq_true_eq]
  split_ifs <;> rfl

/-- The token of the parts of an integer is the integer. -/
theorem token_numeral (n : Int) : (numeral n).token = .int n := by
  have hzero (hn : n < 0) : Decimal.ofNat n.natAbs ≠ ['0'] := by
    intro h
    have hvalue := Decimal.value_ofNat n.natAbs
    rw [h] at hvalue
    have : n.natAbs = 0 := hvalue.symm
    omega
  rw [Numeral.token, numeral, numberToken, if_pos (by simpa using hzero), Decimal.value_ofNat]
  simp only [decide_eq_true_eq]
  split_ifs <;> congr 1 <;> omega

/-- A hexadecimal digit has the value that it was written for. -/
theorem hexValue_hexDigit {n : Nat} (h : n < 16) : hexValue (hexDigit n) = some n := by
  have all : ∀ k : Fin 16, hexValue (hexDigit k.val) = some k.val := by decide
  exact all ⟨n, h⟩

/-- A unit for a control character stands for the character. -/
theorem pieceOfUnit_of_lt {c : Char} (h : c.toNat < 32) : pieceOfUnit c.toNat = .char c := by
  rw [pieceOfUnit, if_neg (by omega), if_neg (by omega), Char.ofNat_toNat]

/-- A character of a string is written in one of its ways. -/
theorem writes_escapeChar (c : Char) : (Piece.char c).Writes (escapeChar c) := by
  unfold escapeChar
  split
  case h_8 hquote hbackslash _ _ _ _ _ =>
    split_ifs with hcontrol
    · -- a control character without a letter of its own is written by its number
      have hunit := Piece.Writes.unit (a := '0') (b := '0') (v := 0) (w := 0) rfl rfl
        (hexValue_hexDigit (n := c.toNat / 16) (by omega))
        (hexValue_hexDigit (Nat.mod_lt c.toNat (by decide : 0 < 16)))
      have hnat : 4096 * 0 + 256 * 0 + 16 * (c.toNat / 16) + c.toNat % 16 = c.toNat := by omega
      rw [hnat, pieceOfUnit_of_lt hcontrol] at hunit
      exact hunit
    · exact .plain (by omega) hquote hbackslash
  all_goals exact .letter rfl

/-- The pieces of a text of characters are joined to the text. -/
theorem joinPieces_map (cs : List Char) : joinPieces (cs.map .char) = some cs := by
  induction cs with
  | nil => rfl
  | cons c cs ih =>
    rw [List.map_cons, joinPieces, ih]
    rfl

/-- A text is written character by character. -/
theorem writesAll_flatMap (cs : List Char) : WritesAll (cs.map .char) (cs.flatMap escapeChar) := by
  induction cs with
  | nil => exact .nil
  | cons c cs ih => exact .cons (writes_escapeChar c) ih

/-- A token is written in one of its ways. -/
theorem spells_chars {t : Token} (h : ∀ text, t ≠ .real text) : Spells t t.chars := by
  cases t with
  | bool b => cases b <;> constructor
  | int n =>
    have hn := Spells.number (numeral n)
    rw [token_numeral, chars_numeral] at hn
    exact hn
  | real text => exact absurd rfl (h text)
  | string s =>
    cases s with
    | none =>
      have half : (Piece.high 0xD800).Writes ['\\', 'u', 'd', '8', '0', '0'] :=
        Piece.Writes.unit (v := 13) (w := 8) (x := 0) (y := 0) rfl rfl rfl rfl
      exact .string (.cons half .nil)
    | some s =>
      have hs := Spells.string (writesAll_flatMap s.toList)
      rw [joinPieces_map, Option.map_some, String.ofList_toList] at hs
      exact hs
  | _ => constructor

end Token

open Token in
/-- Tokens written one right behind the other are spelled, if all numbers in them are integers. -/
theorem spaced_flatMap {ts : List Token} (h : ∀ text, Token.real text ∉ ts) :
    Spaced ts (ts.flatMap chars) := by
  induction ts with
  | nil => exact .nil (List.forall_mem_nil _)
  | cons t ts ih =>
    have ht : Spells t t.chars := spells_chars fun text heq => h text (heq ▸ List.mem_cons_self)
    have hnone : Blanks [] := List.forall_mem_nil _
    exact .cons hnone ht (ih fun text hmem => h text (List.mem_cons_of_mem t hmem))

/-- The text of a value without blanks is one of its texts, if its numbers are integers. -/
theorem spelled_compact {j : Json} (h : ∀ text, Token.real text ∉ j.tokens) :
    j.Spelled j.compact.toList := by
  rw [compact, String.toList_ofList]
  exact spaced_flatMap h

end Json

end RideProof
