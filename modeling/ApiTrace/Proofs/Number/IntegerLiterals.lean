import Mathlib
import ApiTrace.Proofs.Constant.Failure
import ApiTrace.Proofs.Number.Nearest
import ApiTrace.Proofs.Text.Digits
import ApiTrace.Syntax.Reading.Literal

/-!
# Integer literals in every base

An integer can be spelled in decimal, or after a mark in base sixteen, eight or two, with
underscores between its digits. A literal with a mark is that integer exactly, while a decimal
literal is the nearest number of the format (`Numeral.integer_literals_by_base`). So all spellings
of an integer name one property exactly if the format holds the integer.
-/

namespace ApiTrace

/-! ## Spellings -/

/-- The spellings of a row of digits: an underscore may stand between two of them. -/
inductive Separated : List HexDigit → Text → Prop where
  | single (d : HexDigit) : Separated [d] [d.codePoint]
  | next (d : HexDigit) {ds : List HexDigit} {t : Text} : Separated ds t →
      Separated (d :: ds) (d.codePoint :: t)
  | underscore (d : HexDigit) {ds : List HexDigit} {t : Text} :
      Separated ds t → Separated (d :: ds) (d.codePoint :: .scalar '_' :: t)

namespace HexDigit

theorem codePoint_bne_underscore (d : HexDigit) : (d.codePoint != .scalar '_') = true := by
  obtain ⟨value, capital⟩ := d
  revert value capital
  decide

theorem codePoint_ne_n (d : HexDigit) : d.codePoint ≠ .scalar 'n' := by
  obtain ⟨value, capital⟩ := d
  revert value capital
  decide

/-- The characters that a decimal literal must not have, because they give it another meaning. -/
def meaningfulChars : List Char := ['-', '+', 'i', 'n', '.', 'e', 'E']

theorem codePoint_of_decimal {d : HexDigit} (h : d.value.val < 10) :
    d.codePoint.digit? = some d.value.val ∧
    Numeral.markedBase? d.codePoint = none ∧ d.codePoint = .scalar (Nat.digitChar d.value) ∧
    (Nat.digitChar d.value).toLower = Nat.digitChar d.value ∧
    Nat.digitChar d.value ∉ meaningfulChars := by
  obtain ⟨value, capital⟩ := d
  revert value capital
  decide

end HexDigit

namespace Separated

variable {ds : List HexDigit} {t : Text}

theorem ne_nil (h : Separated ds t) : t ≠ [] := by
  cases h <;> exact List.cons_ne_nil _ _

theorem filter_cons (d : HexDigit) (t : Text) :
    (d.codePoint :: t).filter (· != .scalar '_') = d.codePoint :: t.filter (· != .scalar '_') :=
  List.filter_cons_of_pos (p := (· != CodePoint.scalar '_')) d.codePoint_bne_underscore

/-- Without the underscores the digits are left. -/
theorem filter_eq (h : Separated ds t) : t.filter (· != .scalar '_') = HexDigit.text ds := by
  induction h with
  | single d => exact filter_cons d []
  | next d _ ih =>
    rw [filter_cons, ih]
    rfl
  | underscore d _ ih =>
    rw [filter_cons, List.filter_cons_of_neg (by decide), ih]
    rfl

theorem exists_getLast? (h : Separated ds t) : ∃ d : HexDigit, t.getLast? = some d.codePoint := by
  induction h with
  | single d => exact ⟨d, rfl⟩
  | next d h ih =>
    rwa [List.getLast?_cons_of_ne_nil h.ne_nil]
  | underscore d h ih =>
    rwa [List.getLast?_cons_cons, List.getLast?_cons_of_ne_nil h.ne_nil]

theorem digits_ne_nil (h : Separated ds t) : ds ≠ [] := by
  cases h <;> exact List.cons_ne_nil _ _

end Separated

namespace Numeral

/-- The letters that mark a base. -/
def marks : List (Char × Nat) := [('x', 16), ('X', 16), ('o', 8), ('O', 8), ('b', 2), ('B', 2)]

/-- The spellings of an integer with digits of a base. -/
structure Digits (base n : Nat) (ds : List HexDigit) (t : Text) : Prop where
  separated : Separated ds t
  lt : ∀ d ∈ ds, d.value.val < base
  number : HexDigit.number base ds = n

/-- The decimal spellings of an integer. They begin with a zero only for zero itself. -/
def IsDecimal (n : Nat) (t : Text) : Prop :=
  ∃ ds, Digits 10 n ds t ∧ ((∃ d : HexDigit, ds = [d]) ∨ ∀ d ∈ ds.head?, d.value.val ≠ 0)

/-- The spellings of an integer after the mark of a base. -/
def IsMarked (n : Nat) (t : Text) : Prop :=
  ∃ mark base ds digits, (mark, base) ∈ marks ∧ Digits base n ds digits ∧
    t = .scalar '0' :: .scalar mark :: digits

/-! ## Texts without blanks -/

/-- Whether a code point stays as it is when blanks and the digits of other scripts are looked
for. -/
def IsPlain (p : CodePoint) : Prop :=
  isBlank p = false ∧ ∀ d ∈ Text.decimalDigit? p, .scalar (Nat.digitChar d) = p

theorem trim_eq_self {drop : CodePoint → Bool} {t : Text} (h : ∀ p ∈ t, drop p = false) :
    Text.trim drop t = t := by
  have hself : ∀ s : Text, (∀ p ∈ s, drop p = false) → s.dropWhile drop = s := by
    intro s hs
    cases s with
    | nil => rfl
    | cons p s => exact List.dropWhile_cons_of_neg (by simp [hs p (.head _)])
  rw [Text.trim, hself t h, hself t.reverse fun p hp => h p (List.mem_reverse.1 hp),
    List.reverse_reverse]

theorem plain_eq_self {t : Text} (h : ∀ p ∈ t, IsPlain p) : plain t = t := by
  rw [plain, trim_eq_self fun p hp => (h p hp).1]
  refine (List.map_congr_left fun p hp => ?_).trans (List.map_id t)
  have hdigit := (h p hp).2
  split
  · rename_i d hd
    exact hdigit d hd
  · rfl

theorem isPlain_codePoint (d : HexDigit) : IsPlain d.codePoint := by
  obtain ⟨value, capital⟩ := d
  revert value capital
  unfold IsPlain
  decide +kernel

theorem isPlain_text {ds : List HexDigit} : ∀ p ∈ HexDigit.text ds, IsPlain p := by
  intro p hp
  obtain ⟨d, -, rfl⟩ := List.mem_map.1 hp
  exact isPlain_codePoint d

/-! ## Literals with a mark -/

theorem markedBase?_of_mem {mark : Char} {base : Nat} (h : (mark, base) ∈ marks) :
    markedBase? (.scalar mark) = some base ∧ IsPlain (.scalar mark) ∧ mark ≠ '_' := by
  have hall : ∀ m ∈ marks, markedBase? (.scalar m.1) = some m.2 ∧ IsPlain (.scalar m.1) ∧
      m.1 ≠ '_' := by
    unfold IsPlain
    decide +kernel
  exact hall _ h

theorem digitsIn?_text {base : Nat} {ds : List HexDigit} (hds : ∀ d ∈ ds, d.value.val < base)
    (hne : ds ≠ []) :
    digitsIn? base (HexDigit.text ds) = some (ds.map (·.value.val)) := by
  have hmap : (HexDigit.text ds).mapM (fun p => p.hexDigit?.filter (· < base)) = some
      (ds.map (·.value.val)) := by
    clear hne
    induction ds with
    | nil => rfl
    | cons d ds ih =>
      obtain ⟨hd, hds⟩ := List.forall_mem_cons.1 hds
      have hfilter : d.codePoint.hexDigit?.filter (· < base) = some d.value.val := by
        rw [d.hexDigit?_codePoint, Option.filter_some, if_pos (decide_eq_true hd)]
      have hrest := ih hds
      rw [HexDigit.text] at hrest ⊢
      rw [List.map_cons, List.mapM_cons, hfilter, hrest]
      rfl
  rw [digitsIn?, hmap]
  cases ds with
  | nil => exact absurd rfl hne
  | cons d ds => rfl

/-- A literal with a mark is read exactly. -/
theorem ofLiteral_marked {n : Nat} {t : Text} (h : IsMarked n t) :
    Number.ofLiteral t = .ok (.int n) := by
  obtain ⟨mark, base, ds, digits, hmark, ⟨hseparated, hlt, hnumber⟩, rfl⟩ := h
  obtain ⟨hbase, hplain, hne⟩ := markedBase?_of_mem hmark
  have hfilter : (CodePoint.scalar '0' :: CodePoint.scalar mark :: digits).filter
      (· != .scalar '_') =
      .scalar '0' :: .scalar mark :: HexDigit.text ds := by
    rw [List.filter_cons_of_pos (by decide), List.filter_cons_of_pos (by simpa using hne),
      hseparated.filter_eq]
  have hsplit : splitMark? (.scalar '0' :: .scalar mark :: HexDigit.text ds) = some
      (base, HexDigit.text ds) := by
    rw [splitMark?, hbase]
    rfl
  have hself : plain (.scalar '0' :: .scalar mark :: HexDigit.text ds) =
      .scalar '0' :: .scalar mark :: HexDigit.text ds := by
    refine plain_eq_self (List.forall_mem_cons.2
      ⟨?_, List.forall_mem_cons.2 ⟨hplain, isPlain_text⟩⟩)
    exact isPlain_codePoint ⟨0, false⟩
  have hread : readInt (.scalar '0' :: .scalar mark :: HexDigit.text ds) = .ok (n : Int) := by
    rw [readInt, hself]
    show (readUnsigned _ (.scalar '0' :: .scalar mark :: HexDigit.text ds) >>=
      fun n => pure (n : Int)) = _
    rw [readUnsigned, hsplit]
    dsimp only
    rw [digitsIn?_text hlt hseparated.digits_ne_nil]
    dsimp only
    rw [HexDigit.digitsValue_map_value, hnumber]
    rfl
  rw [Number.ofLiteral, hfilter, hsplit]
  dsimp only [Option.isSome_some]
  rw [if_pos rfl, hread]
  rfl

/-! ## Decimal literals -/

theorem spanDigits_text {ds : List HexDigit} (h : ∀ d ∈ ds, d.value.val < 10) :
    spanDigits (HexDigit.text ds) = (ds.map (·.value.val), []) := by
  have hall : ∀ p ∈ HexDigit.text ds, p.digit?.isSome = true := by
    intro p hp
    obtain ⟨d, hd, rfl⟩ := List.mem_map.1 hp
    rw [(HexDigit.codePoint_of_decimal (h d hd)).1]
    rfl
  have hmap : (HexDigit.text ds).filterMap CodePoint.digit? = ds.map (·.value.val) := by
    rw [HexDigit.text, List.filterMap_map, ← List.filterMap_eq_map]
    exact List.filterMap_congr fun d hd => (HexDigit.codePoint_of_decimal (h d hd)).1
  rw [spanDigits, List.takeWhile_eq_self_iff.2 hall, List.dropWhile_eq_nil_iff.2 hall, hmap]

/-- Integers of at most 1023 bits are written out before they are rounded. -/
theorem toInt?_ofDecimal {n p : Nat} (hp : p ≤ 1023) (hn : n < Nat.pow 2 p) :
    (Binary64.ofDecimal false n 0).toInt? = some (Binary64.roundInt n : Int) := by
  by_cases hzero : n = 0
  · subst hzero
    rw [Binary64.ofDecimal.eq_def, if_pos rfl, Binary64.roundInt_eq_self (Binary64.pow_pos 53)]
    exact Binary64.toInt?_eq_some_iff.2 ⟨false, 0, rfl, (Int.zero_mul _).symm⟩
  · have hlog : n.log2 < p := (Nat.log2_lt hzero).2 hn
    rw [Binary64.ofDecimal.eq_def, if_neg hzero]
    dsimp only
    rw [if_neg (by omega), if_neg (by omega)]
    show (Binary64.ofRatio false (n * Nat.pow 10 0) 1).toInt? = _
    rw [show n * Nat.pow 10 0 = n from Nat.mul_one n]
    exact Binary64.toInt?_ofNat hp hn

theorem splitMark?_text {ds : List HexDigit} (h : ∀ d ∈ ds, d.value.val < 10) :
    splitMark? (HexDigit.text ds) = none := by
  cases ds with
  | nil => rfl
  | cons d ds =>
    cases ds with
    | nil =>
      show splitMark? [d.codePoint] = none
      unfold splitMark?
      split
      · rename_i heq
        exact absurd (List.cons.inj heq).2 (List.cons_ne_nil _ _).symm
      · rfl
    | cons d' ds =>
      have hmark := (HexDigit.codePoint_of_decimal (h d' (.tail _ (.head _)))).2.1
      show splitMark? (d.codePoint :: d'.codePoint :: HexDigit.text ds) = none
      unfold splitMark?
      split
      · rename_i heq
        obtain ⟨rfl, -⟩ := List.cons.inj (List.cons.inj heq).2
        rw [hmark]
        rfl
      · rfl

theorem splitSign_cons {c : Char} (hminus : c ≠ '-') (hplus : c ≠ '+') (t : Text) :
    splitSign (.scalar c :: t) = (false, .scalar c :: t) := by
  unfold splitSign
  split
  · rename_i heq
    exact absurd (CodePoint.scalar.inj (List.cons.inj heq).1) hminus
  · rename_i heq
    exact absurd (CodePoint.scalar.inj (List.cons.inj heq).1) hplus
  · rfl

/-- A row of decimal digits is read as the number nearest to its value. -/
theorem readFloat?_text {ds : List HexDigit} (hne : ds ≠ []) (h : ∀ d ∈ ds, d.value.val < 10) :
    readFloat? (HexDigit.text ds) = some (.ofDecimal false (HexDigit.number 10 ds) 0) := by
  have hspan := spanDigits_text h
  have hdecimal : readDecimal? false (HexDigit.text ds) = some
      (.ofDecimal false (HexDigit.number 10 ds) 0) := by
    rw [readDecimal?, hspan, ← HexDigit.digitsValue_map_value]
    cases ds with
    | nil => exact absurd rfl hne
    | cons d ds =>
      show some (Binary64.ofDecimal false (Text.digitsValue 10 (_ ++ [])) (0 - ((0 : Nat) : Int))) =
        _
      rw [List.append_nil]
      rfl
  rw [readFloat?, plain_eq_self isPlain_text]
  cases ds with
  | nil => exact absurd rfl hne
  | cons d ds =>
    obtain ⟨-, -, hd, hlower, hmeaning⟩ := HexDigit.codePoint_of_decimal (h d (.head _))
    have htext : HexDigit.text (d :: ds) = .scalar (Nat.digitChar d.value) :: HexDigit.text ds := by
      rw [← hd]
      rfl
    have hchar : ∀ c ∈ HexDigit.meaningfulChars, Nat.digitChar d.value ≠ c :=
      fun c hc heq => hmeaning (heq ▸ hc)
    have hword : ∀ c ∈ HexDigit.meaningfulChars, ∀ t u : Text,
        CodePoint.scalar (Nat.digitChar d.value).toLower :: t ≠ .scalar c :: u := by
      intro c hc t u heq
      rw [hlower] at heq
      exact hchar c hc (CodePoint.scalar.inj (List.cons.inj heq).1)
    rw [htext, splitSign_cons (hchar _ (by decide)) (hchar _ (by decide))]
    dsimp only
    rw [List.map_cons, if_neg, if_neg, ← htext, hdecimal]
    · exact hword 'n' (by decide) _ _
    · rintro (heq | heq)
      · exact hword 'i' (by decide) _ _ heq
      · exact hword 'i' (by decide) _ _ heq

/-- A decimal literal is rounded to the nearest number of the format. -/
theorem ofLiteral_decimal {n p : Nat} (hp : p ≤ 1023) (hn : n < Nat.pow 2 p) {t : Text}
    (h : IsDecimal n t) :
    Number.ofLiteral t = .ok (.int (Binary64.roundInt n)) := by
  obtain ⟨ds, ⟨hseparated, hlt, hnumber⟩, -⟩ := h
  have hmarked : ((HexDigit.text ds).any fun p => p == .scalar '.' || p == .scalar 'e' ||
      p == .scalar 'E') = false := by
    rw [List.any_eq_false]
    intro q hq
    obtain ⟨d, hd, rfl⟩ := List.mem_map.1 hq
    obtain ⟨-, -, hcode, -, hmeaning⟩ := HexDigit.codePoint_of_decimal (hlt d hd)
    rw [hcode]
    simp only [HexDigit.meaningfulChars, List.mem_cons, not_or] at hmeaning
    simp [hmeaning]
  rw [Number.ofLiteral, hseparated.filter_eq]
  dsimp only
  rw [splitMark?_text hlt, if_neg (by decide), readFloat?_text hseparated.digits_ne_nil hlt,
    hnumber]
  dsimp only
  rw [toInt?_ofDecimal hp hn, hmarked]

/-! ## Names of properties -/

/-- What a literal stands for: an integer, and the name of the property that has the literal as its
key. -/
structure ReadsAs (t : Text) (n : Nat) : Prop where
  value : Number.ofLiteral t = .ok (.int n)
  name : ∃ value, Phrase.numberValue t = .ok value ∧
    ∀ joins span, (Node.mk span (.literal value t)).constantText? joins = .ok (some (Text.ofNat n))

theorem toText_of_lt {n k : Nat} (hk : k ≤ digitLimit) (hn : n < Nat.pow 2 k) :
    (Constant.number (.int n)).toText = .ok (Text.ofNat n) := by
  generalize hlimit : digitLimit = limit at hk
  have hlt : n < Nat.pow 10 limit :=
    calc n < Nat.pow 2 k := hn
      _ ≤ Nat.pow 10 k := Nat.pow_le_pow_left (by decide) k
      _ ≤ Nat.pow 10 limit := Nat.pow_le_pow_right (by decide) hk
  rw [← hlimit] at hlt
  exact Constant.intText_of_lt hlt

theorem readsAs_of_ofLiteral {t : Text} {n k : Nat} (hk : k ≤ digitLimit) (hn : n < Nat.pow 2 k)
    (hlast : ∃ d : HexDigit, t.getLast? = some d.codePoint)
    (h : Number.ofLiteral t = .ok (.int n)) :
    ReadsAs t n := by
  obtain ⟨d, hd⟩ := hlast
  have hn' : t.getLast? ≠ some (.scalar 'n') := by
    rw [hd]
    exact fun heq => d.codePoint_ne_n (Option.some.inj heq)
  refine ⟨h, .number (.int n), ?_, fun joins span => ?_⟩
  · rw [Phrase.numberValue, h]
    exact if_neg hn'
  · simp only [Node.constantText?, Node.constant?, Form.constant?, Constant.ofLiteral,
      toText_of_lt hk hn, bind, Except.bind, pure, Except.pure]

/-- However an integer is spelled, a literal with a mark is that integer and a decimal literal is
the nearest number of the format. The two name the same property exactly if the integer is a number
of the format. -/
theorem integer_literals_by_base {n : Nat} (hn : n < 2 ^ 1023) : ∃ m : Nat,
    Binary64.IsNearest n m ∧ (∀ t, IsDecimal n t → ReadsAs t m) ∧
    (∀ t, IsMarked n t → ReadsAs t n) ∧
      (m = n ↔ Binary64.IsFinite n) ∧ (Text.ofNat m = Text.ofNat n ↔ Binary64.IsFinite n) := by
  -- The exponent is a variable here: nothing must try to compute the power.
  generalize hp : 1023 = p at hn
  have hp' : p ≤ 1023 := Nat.le_of_eq hp.symm
  have hnearest := Binary64.isNearest_roundInt hp' hn
  have hfinite : Binary64.roundInt n = n ↔ Binary64.IsFinite n := by
    rw [← hnearest.eq_iff, Nat.cast_inj]
  refine ⟨Binary64.roundInt n, hnearest, fun t ht => ?_, fun t ht => ?_, hfinite, ?_⟩
  · have hread := ofLiteral_decimal hp' hn ht
    obtain ⟨ds, ⟨hseparated, -, -⟩, -⟩ := ht
    exact readsAs_of_ofLiteral (k := p + 1) (by rw [digitLimit]; omega) (Binary64.roundInt_lt hn)
      hseparated.exists_getLast? hread
  · have hread := ofLiteral_marked ht
    obtain ⟨mark, base, ds, digits, -, ⟨hseparated, -, -⟩, rfl⟩ := ht
    refine readsAs_of_ofLiteral (k := p) (by rw [digitLimit]; omega) hn ?_ hread
    rw [List.getLast?_cons_cons, List.getLast?_cons_of_ne_nil hseparated.ne_nil]
    exact hseparated.exists_getLast?
  · rw [← hfinite, Text.ofNat, Text.ofNat, Text.ofString_inj]
    exact Nat.repr_inj

/-- The first integer that is no number of the format is spelled in decimal and in base sixteen. -/
theorem integer_literals_by_base_odd : 9007199254740993 < 2 ^ 1023 ∧
    IsDecimal 9007199254740993 (Text.ofString "9007199254740_993") ∧
    IsMarked 9007199254740993 (Text.ofString "0X2000000_0000001") ∧
    ReadsAs (Text.ofString "9007199254740_993") 9007199254740992 ∧
    ReadsAs (Text.ofString "0X2000000_0000001") 9007199254740993 ∧
    ¬ Binary64.IsFinite (9007199254740993 : Nat) := by
  have hpow : ∀ p, 54 ≤ p → 9007199254740993 < 2 ^ p := fun p hp =>
    Nat.lt_of_lt_of_le (by decide) (Nat.pow_le_pow_right (by decide) hp)
  have hlt : 9007199254740993 < 2 ^ 1023 := hpow 1023 (by decide)
  have hdecimal : IsDecimal 9007199254740993 (Text.ofString "9007199254740_993") := by
    refine ⟨[9, 0, 0, 7, 1, 9, 9, 2, 5, 4, 7, 4, 0, 9, 9, 3].map (⟨·, false⟩),
      ⟨?_, by decide, by decide⟩, .inr (by decide)⟩
    exact .next _ <| .next _ <| .next _ <| .next _ <| .next _ <| .next _ <| .next _ <|
      .next _ <| .next _ <|
      .next _ <| .next _ <| .next _ <| .underscore _ <| .next _ <| .next _ <| .single _
  have hmarked : IsMarked 9007199254740993 (Text.ofString "0X2000000_0000001") := by
    refine ⟨'X', 16, [2, 0, 0, 0, 0, 0, 0, 0, 0, 0, 0, 0, 0, 1].map (⟨·, false⟩),
      Text.ofString "2000000_0000001", by decide, ⟨?_, by decide, by decide⟩, by decide⟩
    exact .next _ <| .next _ <| .next _ <| .next _ <| .next _ <| .next _ <| .underscore _ <|
      .next _ <| .next _ <|
      .next _ <| .next _ <| .next _ <| .next _ <| .single _
  obtain ⟨m, -, hdecimals, hmarks, hfinite, -⟩ := integer_literals_by_base hlt
  have hread : Number.ofLiteral (Text.ofString "9007199254740_993") = .ok
      (.int 9007199254740992) := by
    decide +kernel
  have hm : m = 9007199254740992 := by
    have hvalue := (hdecimals _ hdecimal).value
    rw [hread] at hvalue
    exact (Int.ofNat.inj (Number.int.inj (Except.ok.inj hvalue))).symm
  subst hm
  exact ⟨hlt, hdecimal, hmarked, hdecimals _ hdecimal, hmarks _ hmarked,
    fun h => absurd (hfinite.2 h) (by decide)⟩

end Numeral

end ApiTrace
