import ApiTrace.Proofs.Constant.Evaluation
import ApiTrace.Proofs.Constant.Failure

/-!
# Constants and the values of expressions

The constant of an expression is what the expression comes to when the program runs, as long as all
numbers that arise are integers below `2 ^ 53` and all big integers can be written
(`Node.Composed.tracks`). Numbers and big integers are not told apart in constants, so an expression
that mixes them may have a constant although its evaluation throws. Asking for a constant fails only
where the evaluation throws a type error.

A composed expression with a leaf that is no literal never has a constant
(`Node.Composed.not_hasOtherLeaf`). One whose evaluation completes has a constant unless there is
such a leaf or an operand is turned into a number (`Node.Composed.hasOtherLeaf_or_coerces`).
-/

namespace ApiTrace

/-! ## Numbers -/

/-- The integer that a number is, if it is one. -/
def Number.toInt? : Number → Option Int
  | .int n => some n
  | .float x => x.toInt?

namespace Constant

open Binary64 (exactLimit)

theorem toInt?_negNumber {a : Number} {n : Int} (h : a.toInt? = some n) :
    (negNumber a).toInt? = some (-n) := by
  cases a with
  | int m => exact congrArg (some <| - ·) (Option.some.inj h)
  | float x => exact Binary64.toInt?_neg h

/-- Small integers are added exactly, whichever way they are held. -/
theorem exists_addNumbers {a b : Number} {m n : Int} (ha : a.toInt? = some m)
    (hb : b.toInt? = some n) (hm : m.natAbs < exactLimit) (hn : n.natAbs < exactLimit)
    (hsum : (m + n).natAbs < exactLimit) :
    ∃ c, addNumbers a b = .ok c ∧ c.toInt? = some (m + n) := by
  have hadd {x y : Binary64} (hx : x.toInt? = some m) (hy : y.toInt? = some n) :
      (x + y).toInt? = some (m + n) := by
    rw [Binary64.toInt?_add hx hy, Binary64.toInt?_ofInt hsum]
  cases a with
  | int k =>
    cases Option.some.inj ha
    cases b with
    | int l =>
      cases Option.some.inj hb
      exact ⟨_, rfl, rfl⟩
    | float y =>
      obtain ⟨x, hx, hint⟩ := Binary64.exists_ofInt? hm
      refine ⟨.float (x + y), ?_, hadd hint hb⟩
      rw [addNumbers, hx, Option.elim_some]
  | float x =>
    cases b with
    | int l =>
      cases Option.some.inj hb
      obtain ⟨y, hy, hint⟩ := Binary64.exists_ofInt? hn
      refine ⟨.float (x + y), ?_, hadd ha hint⟩
      rw [addNumbers, hy, Option.elim_some]
    | float y => exact ⟨.float (x + y), rfl, hadd ha hb⟩

/-- A small integer is written in decimal, whichever way it is held. -/
theorem toText_of_toInt? {a : Number} {n : Int} (ha : a.toInt? = some n)
    (hn : n.natAbs < exactLimit) :
    (number a).toText = .ok (Text.ofInt n) := by
  cases a with
  | int m =>
    cases Option.some.inj ha
    exact intText_of_lt (Nat.lt_of_lt_of_le hn (Binary64.exactLimit_le_pow (by decide)))
  | float x =>
    obtain ⟨negative, units, rfl, -⟩ := Binary64.toInt?_eq_some_iff.1 ha
    have hsmall : n.natAbs < Nat.pow 10 21 :=
      Nat.lt_of_lt_of_le hn (Binary64.exactLimit_le_pow (by decide))
    have hfloat : (Binary64.finite negative units).toInt? = some n := ha
    simp only [toText, floatText, hfloat, if_pos hsmall]

/-! ## Values -/

/-- A constant stands for a value: a text for the string with its code units, a number for the
number that is the same integer, and an integer for a big integer too. -/
inductive Means : Constant → Primitive → Prop where
  | string (t : Text) : Means (.string t) (.string t.units)
  | boolean (value : Bool) : Means (.boolean value) (.boolean value)
  | null : Means .null .null
  | number {a : Number} {x : Binary64} {n : Int} (ha : a.toInt? = some n) (hx : x.toInt? = some n)
      (hn : n.natAbs < exactLimit) : Means (.number a) (.number x)
  | bigint {n : Int} (hn : n.natAbs < Nat.pow 10 Numeral.digitLimit) :
      Means (.number (.int n)) (.bigint n)

/-- A constant stands for the value of an expression, which is then no object. -/
inductive IsValue : Constant → ScriptValue → Prop where
  | primitive {c : Constant} {value : Primitive} (h : c.Means value) : IsValue c (.primitive value)

end Constant

/-- What is said of an evaluation before it is done: nothing, anything if it throws a type error,
and the right thing if it completes. -/
inductive Tracks {α β : Type} (R : α → β → Prop) :
    Except ConstantFault (Option α) → Except Thrown β → Prop where
  | unknown (e : Except Thrown β) : Tracks R (.ok none) e
  | typeError (r : Except ConstantFault (Option α)) : Tracks R r (.error .typeError)
  | value {a : α} {b : β} (h : R a b) : Tracks R (.ok (some a)) (.ok b)

/-- Steps that follow each other. -/
theorem Tracks.bind {α β γ δ : Type} {R : α → β → Prop} {S : γ → δ → Prop}
    {r : Except ConstantFault (Option α)} {e : Except Thrown β} (h : Tracks R r e)
    {f : Option α → Except ConstantFault (Option γ)} {g : β → Except Thrown δ}
    (hnone : f none = .ok none) (hsome : ∀ a b, R a b → e = .ok b → Tracks S (f (some a)) (g b)) :
    Tracks S (r >>= f) (e >>= g) := by
  cases h with
  | unknown e =>
    have hunknown : (Except.ok none >>= f) = .ok none := hnone
    rw [hunknown]
    exact .unknown _
  | typeError r => exact .typeError _
  | value h => exact hsome _ _ h rfl

namespace Constant

open Binary64 (exactLimit)

variable {w : World} {a b : Constant} {p q : Primitive}

theorem Means.exists_toText (h : a.Means p) : ∃ t, a.toText = .ok t ∧ w.units p = .ok t.units := by
  cases h with
  | string t => exact ⟨t, rfl, rfl⟩
  | boolean value => cases value <;> exact ⟨_, rfl, rfl⟩
  | null => exact ⟨_, rfl, rfl⟩
  | @number a x n ha hx hn =>
    refine ⟨Text.ofInt n, toText_of_toInt? ha hn, ?_⟩
    simp only [World.units, World.numberUnits, hx, if_pos hn]
  | bigint hn => exact ⟨_, intText_of_lt hn, rfl⟩

/-- The value of a literal. -/
theorem means_ofLiteral {value : Literal} (h : value.primitive? = some p)
    (hrange : (ScriptValue.primitive p).InRange) : (ofLiteral value).Means p := by
  cases value with
  | string t =>
    cases h
    exact .string t
  | boolean b =>
    cases h
    exact .boolean b
  | null =>
    cases h
    exact .null
  | bigint n =>
    cases h
    exact .bigint hrange
  | regex => cases h
  | number a =>
    cases a with
    | int n =>
      cases h
      obtain ⟨m, hm, hlt⟩ := hrange
      cases Binary64.eq_of_toInt?_ofInt hm hlt
      exact .number rfl hm hlt
    | float x =>
      cases h
      obtain ⟨m, hm, hlt⟩ := hrange
      exact .number hm hm hlt

/-- The value of a signed number. -/
theorem Means.signed (h : a.Means p) (negative : Bool) :
    Tracks Means (.ok (Constant.signed negative a)) (w.signed negative p) := by
  cases h with
  | string | boolean | null => exact .unknown _
  | @number a x n ha hx hn =>
    refine .value ?_
    cases negative with
    | true => exact .number (toInt?_negNumber ha) (Binary64.toInt?_neg hx) (by rwa [Int.natAbs_neg])
    | false => exact .number ha hx hn
  | @bigint n hn =>
    cases negative with
    | true => exact .value (.bigint (by rwa [Int.natAbs_neg]))
    | false => exact .typeError _

/-- The value of a sum of which one summand is a text. -/
theorem Means.append (ha : a.Means p) (hb : b.Means q) :
    Tracks Means (do return some (.string ((← a.toText) ++ (← b.toText))))
      (do return .string ((← w.units p) ++ (← w.units q))) := by
  obtain ⟨s, hs, hp⟩ := ha.exists_toText (w := w)
  obtain ⟨t, ht, hq⟩ := hb.exists_toText (w := w)
  rw [hs, ht, hp, hq]
  refine .value ?_
  rw [← Text.units_append]
  exact .string (s ++ t)

/-- The value of a sum of two numbers. -/
theorem Means.plus_numbers {x y : Binary64} {m n : Int} {c d : Number} (hc : c.toInt? = some m)
    (hx : x.toInt? = some m) (hm : m.natAbs < exactLimit) (hd : d.toInt? = some n)
    (hy : y.toInt? = some n) (hn : n.natAbs < exactLimit)
    (hrange : (ScriptValue.primitive (.number (x + y))).InRange) :
    Tracks Means ((Constant.number c).plus (.number d)) (.ok (.number (x + y))) := by
  obtain ⟨k, hk, hlt⟩ := hrange
  obtain rfl : m + n = k := by
    rw [Binary64.toInt?_add hx hy] at hk
    exact Binary64.eq_of_toInt?_ofInt hk hlt
  obtain ⟨e, he, hsum⟩ := exists_addNumbers hc hd hm hn hlt
  rw [Constant.plus, he]
  exact .value (.number hsum hk hlt)

/-- The value of a sum. -/
theorem Means.plus (ha : a.Means p) (hb : b.Means q)
    (hrange : ∀ r, w.sum p q = .ok r → (ScriptValue.primitive r).InRange) :
    Tracks Means (a.plus b) (w.sum p q) := by
  cases ha with
  | string s => exact (Means.string s).append hb
  | boolean | null =>
    cases hb with
    | string t => exact Means.append (by constructor) (.string t)
    | _ => exact .unknown _
  | number hc hx hm =>
    cases hb with
    | string t => exact (Means.number hc hx hm).append (.string t)
    | number hd hy hn => exact plus_numbers hc hx hm hd hy hn (hrange _ rfl)
    | boolean | null => exact .unknown _
    | bigint => exact .typeError _
  | bigint hm =>
    cases hb with
    | string t => exact (Means.bigint hm).append (.string t)
    | bigint => exact .value (.bigint (hrange _ rfl))
    | boolean | null => exact .unknown _
    | number => exact .typeError _

end Constant

/-! ## Expressions -/

section Expressions

variable {w : World} {joins : Bool}

theorem Tracks.primitive {r : Except ConstantFault (Option Constant)} {e : Except Thrown Primitive}
    (h : Tracks Constant.Means r e) :
    Tracks Constant.IsValue r (e >>= fun value => return .primitive value) := by
  cases h with
  | unknown e => exact .unknown _
  | typeError r => exact .typeError r
  | value h => exact .value (.primitive h)

theorem Form.constant?_of_isOther {f : Form} (h : f.isOther = true) :
    f.constant? joins = .ok none := by
  cases f with
  | literal | template => cases h
  | unary operator argument =>
    have h : operator ≠ Text.ofString "-" ∧ operator ≠ Text.ofString "+" := of_decide_eq_true h
    rw [Form.constant?, if_neg (not_or.2 h)]
  | binary left operator right =>
    have h : operator ≠ Text.ofString "+" := of_decide_eq_true h
    rw [Form.constant?, if_neg (fun hplus => h hplus.1)]
  | other name children =>
    have h : name ∉ Constant.partedNames := of_decide_eq_true h
    rw [Form.constant?, if_neg h]
  | _ => rfl

/-- An operand tells what it comes to. -/
def Node.Tracked (w : World) (joins : Bool) (n : Node) : Prop :=
  Tracks Constant.IsValue (n.constant? joins) (n.evaluate w)

theorem Node.tracked_signed {span : Span} {operator : Text} {n : Node}
    (hsign : operator = Text.ofString "-" ∨ operator = Text.ofString "+") (hn : n.Tracked w joins) :
    (Node.mk span (.unary operator (some n))).Tracked w joins := by
  rw [Node.Tracked, Node.constant?, Node.evaluate, Form.constant?, Form.evaluate, if_pos hsign,
    if_pos hsign]
  refine hn.bind rfl ?_
  rintro c _ ⟨hvalue⟩ -
  exact (hvalue.signed _).primitive

theorem Node.evaluate_sum {span : Span} {left right : Node} {a b : Primitive}
    (hleft : left.evaluate w = .ok (.primitive a))
    (hright : right.evaluate w = .ok (.primitive b)) :
    (Node.mk span (.binary (some left) (Text.ofString "+") (some right))).evaluate w =
      (w.sum a b >>= fun value => return .primitive value) := by
  rw [Node.evaluate, Form.evaluate, if_pos rfl, hleft, hright]
  rfl

theorem Node.constant?_sum {span : Span} {left right : Node} {a b : Constant}
    (hleft : left.constant? true = .ok (some a)) (hright : right.constant? true = .ok (some b)) :
    (Node.mk span (.binary (some left) (Text.ofString "+") (some right))).constant? true =
      a.plus b := by
  rw [Node.constant?, Form.constant?, if_pos ⟨rfl, rfl⟩, Form.operand, Form.operand, hleft, hright]
  rfl

theorem Node.tracked_sum {span : Span} {left right : Node} (hleft : left.Tracked w joins)
    (hright : ∀ u, left.evaluate w = .ok u → right.Tracked w joins)
    (hrange : ∀ v, (Node.mk span (.binary (some left) (Text.ofString "+") (some right))).evaluate
      w = .ok v →
      v.InRange) :
    (Node.mk span (.binary (some left) (Text.ofString "+") (some right))).Tracked w joins := by
  rw [Node.Tracked, Node.constant?, Node.evaluate, Form.constant?, Form.evaluate, if_pos rfl]
  split
  · refine hleft.bind rfl ?_
    rintro a _ ⟨ha⟩ hu
    refine (hright _ hu).bind rfl ?_
    rintro b _ ⟨hb⟩ hv
    refine (ha.plus hb ?_).primitive
    intro r hr
    refine hrange _ ?_
    rw [Node.evaluate_sum hu hv, hr]
    rfl
  · exact .unknown _

/-- A text has these code units. -/
def Text.Encodes (t : Text) (units : List UInt16) : Prop := t.units = units

theorem Node.exists_pieceUnits {n : Node} (h : n.isTemplateElement = true) :
    ∃ t, n.pieceText = .ok t ∧ n.pieceUnits = t.units := by
  obtain ⟨span, f⟩ := n
  cases f with
  | templateElement t => exact ⟨t, rfl, rfl⟩
  | _ => cases h

/-- Each substitution is looked at only if those before it have come to a string, so only then is
anything asked of it. -/
def TrackedInTurn (w : World) (joins : Bool) (expressions : List Node) : Prop :=
  ∀ (before : List Node) (n : Node) (after : List Node), expressions = before ++ n :: after →
    (∀ m ∈ before, m.Converts w) → n.Tracked w joins

theorem TrackedInTurn.tail {n : Node} {ns : List Node} (h : TrackedInTurn w joins (n :: ns))
    (hn : n.Converts w) : TrackedInTurn w joins ns := by
  intro before m after hns hbefore
  exact h (n :: before) m after (congrArg _ hns) (List.forall_mem_cons.2 ⟨hn, hbefore⟩)

/-- A template after its first piece. -/
theorem Form.tracks_templateRest {expressions pieces : List Node}
    (hlength : pieces.length = expressions.length)
    (hpieces : ∀ q ∈ pieces, q.isTemplateElement = true) (h : TrackedInTurn w joins expressions) :
    Tracks Text.Encodes (Form.templateRest joins (expressions.map some) pieces)
      (Form.templateUnits w (expressions.map some) pieces) := by
  induction expressions generalizing pieces with
  | nil =>
    rw [Form.templateRest.eq_def, Form.templateUnits.eq_def]
    exact .value rfl
  | cons n ns ih =>
    cases pieces with
    | nil => cases hlength
    | cons piece pieces =>
      obtain ⟨hpiece, hpieces⟩ := List.forall_mem_cons.1 hpieces
      obtain ⟨t, htext, hunits⟩ := Node.exists_pieceUnits hpiece
      have hn : n.Tracked w joins := h [] n ns rfl (by simp)
      rw [List.map_cons, Form.templateRest, Form.templateUnits]
      refine hn.bind rfl ?_
      rintro c _ ⟨hvalue⟩ hv
      obtain ⟨s, hs, hstring⟩ := hvalue.exists_toText (w := w)
      have hrest := ih (Nat.succ.inj hlength) hpieces (h.tail ⟨_, _, hv, hstring⟩)
      change Tracks _ (c.toText >>= _) (w.units _ >>= _)
      rw [hs, hstring, htext, hunits]
      refine hrest.bind rfl ?_
      rintro u _ rfl -
      refine .value ?_
      rw [Text.Encodes, Text.units_append, Text.units_append]

theorem Node.tracked_template {span : Span} {quasis expressions : List Node}
    (hlength : quasis.length = expressions.length + 1)
    (hquasis : ∀ q ∈ quasis, q.isTemplateElement = true) (h : TrackedInTurn w joins expressions) :
    (Node.mk span (.template quasis (expressions.map some))).Tracked w joins := by
  cases quasis with
  | nil => cases hlength
  | cons first pieces =>
    obtain ⟨hfirst, hpieces⟩ := List.forall_mem_cons.1 hquasis
    obtain ⟨t, htext, hunits⟩ := Node.exists_pieceUnits hfirst
    rw [Node.Tracked, Node.constant?, Node.evaluate, Form.constant?.eq_def, Form.evaluate]
    dsimp only
    split
    · exact .unknown _
    · rw [htext, hunits]
      refine (Form.tracks_templateRest (Nat.succ.inj hlength) hpieces h).bind rfl ?_
      rintro u _ rfl -
      refine .value (.primitive ?_)
      rw [← Text.units_append]
      exact .string (t ++ u)

/-- **A constant is what the expression comes to**, as long as what arises on the way is in
range. -/
theorem Node.Composed.tracks {n : Node} (h : n.Composed) (hrange : ∀ v, n.Arises w v → v.InRange) :
    n.Tracked w joins := by
  -- Operands are evaluated in the order in which they are asked for their constants, so an operand
  -- that is not reached is not asked either.
  induction h with
  | @literal span value raw hsome =>
    obtain ⟨p, hp⟩ := Option.isSome_iff_exists.1 hsome
    have hvalue : (Node.mk span (.literal value raw)).evaluate w = .ok (.primitive p) := by
      rw [Node.evaluate, Form.evaluate, hp]
    rw [Node.Tracked, hvalue]
    exact .value (.primitive (Constant.means_ofLiteral hp (hrange _ (.result hvalue))))
  | other hother =>
    rw [Node.Tracked, Node.constant?, Form.constant?_of_isOther hother]
    exact .unknown _
  | signed hsign _ ih =>
    exact Node.tracked_signed hsign (ih fun v hv => hrange v (.argument hsign hv))
  | sum _ _ ihleft ihright =>
    refine Node.tracked_sum (ihleft fun v hv => hrange v (.left hv)) (fun u hu => ?_) fun v hv => ?_
    · exact ihright fun v hv => hrange v (.right hu hv)
    · exact hrange v (.result hv)
  | template hquasis hlength _ ih =>
    refine Node.tracked_template hlength hquasis ?_
    rintro before n after rfl hbefore
    exact ih n (by simp) fun v hv => hrange v (.substitution hbefore hv)

/-! ## Leaves that are no literals -/

/-- All expressions of a template that is a constant are constants. -/
theorem Form.exists_of_templateRest_eq_some {expressions pieces : List Node} {t : Text}
    (hlength : pieces.length = expressions.length)
    (h : Form.templateRest joins (expressions.map some) pieces = .ok (some t)) :
    ∀ n ∈ expressions, ∃ c, n.constant? joins = .ok (some c) := by
  induction expressions generalizing pieces t with
  | nil => simp
  | cons n ns ih =>
    cases pieces with
    | nil => cases hlength
    | cons piece pieces =>
      rw [List.map_cons, Form.templateRest] at h
      obtain ⟨_ | c, hc, h⟩ := bind_eq_ok.1 h
      · cases h
      · obtain ⟨s, -, h⟩ := bind_eq_ok.1 h
        obtain ⟨u, -, h⟩ := bind_eq_ok.1 h
        obtain ⟨_ | rest, hrest, h⟩ := bind_eq_ok.1 h
        · cases h
        · exact List.forall_mem_cons.2 ⟨⟨c, hc⟩, ih (Nat.succ.inj hlength) hrest⟩

/-- **What is a constant has only literals for leaves.** -/
theorem Node.Composed.not_hasOtherLeaf {n : Node} (h : n.Composed) {c : Constant}
    (hc : n.constant? joins = .ok (some c)) : ¬ n.HasOtherLeaf := by
  induction h generalizing c with
  | literal =>
    rintro ⟨⟨⟩⟩
  | other hother =>
    rw [Node.constant?, Form.constant?_of_isOther hother] at hc
    cases hc
  | signed hsign _ ih =>
    rw [Node.constant?, Form.constant?, if_pos hsign] at hc
    obtain ⟨_ | a, ha, hc⟩ := bind_eq_ok.1 hc
    · cases hc
    · intro hleaf
      cases hleaf with
      | leaf hother =>
        have hother : _ ≠ Text.ofString "-" ∧ _ ≠ Text.ofString "+" := of_decide_eq_true hother
        exact hsign.elim hother.1 hother.2
      | argument _ h => exact ih ha h
  | sum _ _ ihleft ihright =>
    rw [Node.constant?, Form.constant?] at hc
    split at hc
    · obtain ⟨_ | a, ha, hc⟩ := bind_eq_ok.1 hc
      · cases hc
      · obtain ⟨_ | b, hb, hc⟩ := bind_eq_ok.1 hc
        · cases hc
        · intro hleaf
          cases hleaf with
          | leaf hother =>
            have hother : Text.ofString "+" ≠ Text.ofString "+" := of_decide_eq_true hother
            exact hother rfl
          | left h => exact ihleft ha h
          | right h => exact ihright hb h
    · cases hc
  | @template span quasis expressions hquasis hlength _ ih =>
    cases quasis with
    | nil => cases hlength
    | cons first pieces =>
      rw [Node.constant?, Form.constant?.eq_def] at hc
      dsimp only at hc
      split at hc
      · cases hc
      · obtain ⟨s, -, hc⟩ := bind_eq_ok.1 hc
        obtain ⟨_ | t, ht, hc⟩ := bind_eq_ok.1 hc
        · cases hc
        · have hall := Form.exists_of_templateRest_eq_some (Nat.succ.inj hlength) ht
          intro hleaf
          cases hleaf with
          | leaf hother => cases hother
          | @substitution _ _ _ n hn h =>
            have hn : n ∈ expressions := by simpa using hn
            obtain ⟨d, hd⟩ := hall n hn
            exact ih n hn hd h

/-! ## Expressions that are no constants -/

theorem Constant.append_ne_none (a b : Constant) :
    (do return some (.string ((← a.toText) ++ (← b.toText))) : Except ConstantFault
      (Option Constant)) ≠
      .ok none := by
  intro h
  obtain ⟨s, -, h⟩ := bind_eq_ok.1 h
  obtain ⟨t, -, h⟩ := bind_eq_ok.1 h
  cases h

/-- A sum that is no constant adds a value that is no number, and no string. -/
theorem Constant.Means.not_numeric {a b : Constant} {p q : Primitive} (ha : a.Means p)
    (hb : b.Means q) (h : a.plus b = .ok none) :
    (p.isString = false ∧ q.isString = false) ∧ (p.isNumeric = false ∨ q.isNumeric = false) := by
  cases ha with
  | string s => exact absurd h (append_ne_none _ b)
  | boolean | null =>
    cases hb with
    | string t => exact absurd h (append_ne_none _ (.string t))
    | _ => exact ⟨⟨rfl, rfl⟩, .inl rfl⟩
  | number | bigint =>
    cases hb with
    | string t => exact absurd h (append_ne_none _ (.string t))
    | boolean | null => exact ⟨⟨rfl, rfl⟩, .inr rfl⟩
    | number | bigint =>
      obtain ⟨_, _, h⟩ := bind_eq_ok.1 h
      cases h

theorem Form.exists_of_templateRest_eq_none {expressions pieces : List Node}
    (h : Form.templateRest joins (expressions.map some) pieces = .ok none) :
    ∃ (before : List Node) (n : Node) (after : List Node),
      expressions = before ++ n :: after ∧ n.constant? joins = .ok none := by
  induction expressions generalizing pieces with
  | nil =>
    rw [Form.templateRest.eq_def] at h
    cases h
  | cons n ns ih =>
    cases pieces with
    | nil =>
      rw [List.map_cons, Form.templateRest.eq_def] at h
      cases h
    | cons piece pieces =>
      rw [List.map_cons, Form.templateRest] at h
      obtain ⟨_ | c, hc, h⟩ := bind_eq_ok.1 h
      · exact ⟨[], n, ns, rfl, hc⟩
      · obtain ⟨s, -, h⟩ := bind_eq_ok.1 h
        obtain ⟨u, -, h⟩ := bind_eq_ok.1 h
        obtain ⟨_ | rest, hrest, h⟩ := bind_eq_ok.1 h
        · obtain ⟨before, m, after, hns, hm⟩ := ih hrest
          exact ⟨n :: before, m, after, congrArg _ hns, hm⟩
        · cases h

theorem Form.exists_of_templateUnits_eq_ok {expressions pieces : List Node} {units : List UInt16}
    (hlength : pieces.length = expressions.length)
    (h : Form.templateUnits w (expressions.map some) pieces = .ok units) :
    ∀ n ∈ expressions, n.Converts w := by
  induction expressions generalizing pieces units with
  | nil => simp
  | cons n ns ih =>
    cases pieces with
    | nil => cases hlength
    | cons piece pieces =>
      rw [List.map_cons, Form.templateUnits] at h
      obtain ⟨v, hv, h⟩ := bind_eq_ok.1 h
      obtain ⟨t, ht, h⟩ := bind_eq_ok.1 h
      obtain ⟨rest, hrest, h⟩ := bind_eq_ok.1 h
      exact List.forall_mem_cons.2 ⟨⟨v, t, hv, ht⟩, ih (Nat.succ.inj hlength) hrest⟩

/-- What is said of an expression that comes to a value. -/
theorem Node.Tracked.of_evaluate_eq {n : Node} {v : ScriptValue} (h : n.Tracked w joins)
    (hv : n.evaluate w = .ok v) :
    n.constant? joins = .ok none ∨ ∃ c p, n.constant? joins = .ok (some c) ∧ v = .primitive p ∧
      c.Means p := by
  rw [Node.Tracked, hv] at h
  generalize n.constant? joins = r at h ⊢
  cases h with
  | unknown => exact .inl rfl
  | value h =>
    obtain ⟨hmeans⟩ := h
    exact .inr ⟨_, _, rfl, rfl, hmeans⟩

/-- **An expression that comes to a value and is no constant has a leaf that is no literal, or turns
an operand into a number.** -/
theorem Node.Composed.hasOtherLeaf_or_coerces {n : Node} {v : ScriptValue} (h : n.Composed)
    (hrange : ∀ v, n.Arises w v → v.InRange) (hv : n.evaluate w = .ok v)
    (hnone : n.constant? true = .ok none) : n.HasOtherLeaf ∨ n.Coerces w := by
  induction h generalizing v with
  | literal => cases hnone
  | other hother => exact .inl (.leaf hother)
  | @signed span operator n hsign hn ih =>
    have hrange : ∀ v, n.Arises w v → v.InRange := fun v hv => hrange v (.argument hsign hv)
    rw [Node.evaluate, Form.evaluate, if_pos hsign] at hv
    obtain ⟨u, hu, hv⟩ := bind_eq_ok.1 hv
    rw [Node.constant?, Form.constant?, if_pos hsign] at hnone
    rcases (hn.tracks hrange).of_evaluate_eq hu with hc | ⟨c, p, hc, rfl, hmeans⟩
    · exact (ih hrange hu hc).imp (.argument hsign) (.argument hsign)
    · rw [Form.operand, hc] at hnone
      cases hmeans with
      | string | boolean | null => exact .inr (.sign hsign hu rfl)
      | number | bigint => cases hnone
  | @sum span left right hleft hright ihleft ihright =>
    have hrangeleft : ∀ v, left.Arises w v → v.InRange := fun v hv => hrange v (.left hv)
    rw [Node.evaluate, Form.evaluate, if_pos rfl] at hv
    obtain ⟨u, hu, hv⟩ := bind_eq_ok.1 hv
    obtain ⟨u', hu', -⟩ := bind_eq_ok.1 hv
    have hrangeright : ∀ v, right.Arises w v → v.InRange := fun v hv => hrange v (.right hu hv)
    rcases (hleft.tracks hrangeleft).of_evaluate_eq hu with hc | ⟨c, p, hc, rfl, hp⟩
    · exact (ihleft hrangeleft hu hc).imp .left .left
    · rcases (hright.tracks hrangeright).of_evaluate_eq hu' with hd | ⟨d, q, hd, rfl, hq⟩
      · exact (ihright hrangeright hu' hd).imp .right .right
      · rw [Node.constant?_sum hc hd] at hnone
        obtain ⟨hstring, hnumeric⟩ := hp.not_numeric hq hnone
        exact .inr (.summand hu hu' hstring hnumeric)
  | @template span quasis expressions hquasis hlength hexpressions ih =>
    cases quasis with
    | nil => cases hlength
    | cons first pieces =>
      rw [Node.evaluate, Form.evaluate] at hv
      obtain ⟨units, hunits, -⟩ := bind_eq_ok.1 hv
      have hall := Form.exists_of_templateUnits_eq_ok (Nat.succ.inj hlength) hunits
      have hrest : Form.templateRest true (expressions.map some) pieces = .ok none := by
        rw [Node.constant?, Form.constant?.eq_def] at hnone
        simp only [Bool.not_true, Bool.and_false, Bool.false_eq_true, if_false] at hnone
        obtain ⟨s, -, hnone⟩ := bind_eq_ok.1 hnone
        obtain ⟨_ | t, ht, hnone⟩ := bind_eq_ok.1 hnone
        · exact ht
        · cases hnone
      obtain ⟨before, n, after, rfl, hn⟩ := Form.exists_of_templateRest_eq_none hrest
      have hmem : n ∈ before ++ n :: after := by simp
      have hsome : some n ∈ (before ++ n :: after).map some := List.mem_map_of_mem hmem
      obtain ⟨u, -, hu, -⟩ := hall n hmem
      have hbefore := fun m (hm : m ∈ before) => hall m (List.mem_append_left _ hm)
      refine (ih n hmem (fun v hv => hrange v (.substitution hbefore hv)) hu hn).imp ?_ ?_
      · exact .substitution hsome
      · exact .substitution hsome

end Expressions

/-! ## Texts -/

section Texts

variable {w : World} {joins : Bool} {n : Node}

theorem Node.constantText?_of_constant? {c : Constant} (h : n.constant? joins = .ok (some c)) :
    n.constantText? joins = (c.toText >>= fun t => return some t) := by
  rw [Node.constantText?, h]
  rfl

theorem Node.constant?_of_constantText?_eq_none (h : n.constantText? joins = .ok none) :
    n.constant? joins = .ok none := by
  rw [Node.constantText?] at h
  obtain ⟨_ | c, hc, h⟩ := bind_eq_ok.1 h
  · exact hc
  · obtain ⟨t, -, h⟩ := bind_eq_ok.1 h
    cases h

theorem Node.constant?_of_constantText? {s : Text} (h : n.constantText? joins = .ok (some s)) :
    ∃ c, n.constant? joins = .ok (some c) := by
  rw [Node.constantText?] at h
  obtain ⟨_ | c, hc, h⟩ := bind_eq_ok.1 h
  · cases h
  · exact ⟨c, hc⟩

/-- The text of an expression that comes to a value. -/
theorem Node.Tracked.stringOf_eq {s : Text} {v : ScriptValue} (h : n.Tracked w joins)
    (hs : n.constantText? joins = .ok (some s)) (hv : n.evaluate w = .ok v) :
    w.stringOf n v = .ok s.units := by
  rcases h.of_evaluate_eq hv with hc | ⟨c, p, hc, rfl, hmeans⟩
  · rw [Node.constantText?, hc] at hs
    cases hs
  · obtain ⟨t, ht, hunits⟩ := hmeans.exists_toText (w := w)
    rw [Node.constantText?_of_constant? hc, ht] at hs
    cases hs
    exact hunits

/-- An expression that cannot be asked for its text throws. -/
theorem Node.Tracked.evaluate_eq_typeError {fault : ConstantFault} (h : n.Tracked w joins)
    (hfault : n.constantText? joins = .error fault) : n.evaluate w = .error .typeError := by
  rw [Node.Tracked] at h
  generalize n.evaluate w = e at h ⊢
  cases hc : n.constant? joins with
  | error fault =>
    rw [hc] at h
    cases h with
    | typeError => rfl
  | ok constant =>
    rw [hc] at h
    cases h with
    | typeError => rfl
    | unknown =>
      rw [Node.constantText?, hc] at hfault
      cases hfault
    | value hvalue =>
      obtain ⟨hmeans⟩ := hvalue
      obtain ⟨t, ht, -⟩ := hmeans.exists_toText (w := w)
      rw [Node.constantText?_of_constant? hc, ht] at hfault
      cases hfault

/-- **The text of a constant expression is the string that the expression comes to**, code unit by
code unit, if its evaluation completes and all that arises in it is in range. An expression with a
leaf that is no literal has no such text. Where texts are joined, an expression that completes has
one unless there is such a leaf or an operand is turned into a number. Asking for the text fails
only if the evaluation throws a type error. -/
theorem Node.Composed.constant_text_sound (hn : n.Composed)
    (hrange : ∀ v, n.Arises w v → v.InRange) :
    (∀ s v, n.constantText? joins = .ok (some s) → n.evaluate w = .ok v →
      w.stringOf n v = .ok s.units) ∧
    (n.HasOtherLeaf → n.constantText? joins = .ok none ∨
      (∃ fault, n.constantText? joins = .error fault) ∧ n.evaluate w = .error .typeError) ∧
    (∀ v, n.evaluate w = .ok v → n.constantText? true = .ok none → n.HasOtherLeaf ∨ n.Coerces w) ∧
    ∀ fault, n.constantText? joins = .error fault → n.evaluate w = .error .typeError := by
  have htracked : n.Tracked w joins := hn.tracks hrange
  refine ⟨fun s v hs hv => htracked.stringOf_eq hs hv, fun hleaf => ?_, fun v hv hnone => ?_,
    fun fault hfault => htracked.evaluate_eq_typeError hfault⟩
  · cases h : n.constantText? joins with
    | error fault => exact .inr ⟨⟨fault, rfl⟩, htracked.evaluate_eq_typeError h⟩
    | ok text =>
      cases text with
      | none => exact .inl rfl
      | some s =>
        obtain ⟨c, hc⟩ := Node.constant?_of_constantText? h
        exact absurd hleaf (hn.not_hasOtherLeaf hc)
  · exact hn.hasOtherLeaf_or_coerces hrange hv (Node.constant?_of_constantText?_eq_none hnone)

end Texts

/-- A world in which nothing but literals, templates, signs and sums comes to a value. -/
def World.bare : World where
  other _ := .error .other
  convert _ _ _ := .error .other
  written _ := []
  numberOf _ := .nan

/-- The expression `-2`. -/
def Node.minusTwo : Node :=
  .mk default (.unary (Text.ofString "-")
    (some (.mk default (.literal (.number (.int 2)) (Text.ofString "2")))))

/-- The expression `"a" + -2`. -/
def Node.labelled : Node :=
  .mk default (.binary (some
    (.mk default (.literal (.string (Text.ofString "a")) (Text.ofString "\"a\""))))
    (Text.ofString "+") (some Node.minusTwo))

theorem Binary64.toInt?_minusTwo : (-(Binary64.ofInt 2)).toInt? = some (-2) :=
  Binary64.toInt?_neg (Binary64.toInt?_ofInt (by decide))

theorem Node.constant?_minusTwo :
    Node.minusTwo.constant? true = .ok (some (.number (.int (-2)))) := rfl

theorem Node.evaluate_minusTwo :
    Node.minusTwo.evaluate .bare = .ok (.primitive (.number (-(.ofInt 2)))) := rfl

theorem Node.constantText?_labelled :
    Node.labelled.constantText? true = .ok (some (Text.ofString "a-2")) := by
  have htext : (Constant.number (.int (-2))).toText = .ok (Text.ofString "-2") :=
    Constant.toText_of_toInt? (n := -2) rfl (by decide)
  have hplus : (Constant.string (Text.ofString "a")).plus (.number (.int (-2))) =
      .ok (some (.string (Text.ofString "a-2"))) := by
    rw [Constant.plus, htext]
    rfl
  have hconstant : Node.labelled.constant? true = .ok (some (.string (Text.ofString "a-2"))) := by
    rw [Node.labelled, Node.constant?_sum (a := .string (Text.ofString "a")) rfl
      Node.constant?_minusTwo, hplus]
  rw [Node.constantText?_of_constant? hconstant]
  rfl

theorem Node.evaluate_labelled :
    Node.labelled.evaluate .bare = .ok (.primitive (.string (Text.ofString "a-2").units)) := by
  have hunits : World.bare.units (.number (-(.ofInt 2))) = .ok (Text.ofString "-2").units := by
    simp only [World.units, World.numberUnits, Binary64.toInt?_minusTwo]
    rfl
  have hsum : World.bare.sum (.string (Text.ofString "a").units) (.number (-(.ofInt 2))) =
      .ok (.string (Text.ofString "a-2").units) := by
    rw [World.sum, hunits]
    rfl
  rw [Node.labelled, Node.evaluate_sum (a := .string (Text.ofString "a").units) rfl
    Node.evaluate_minusTwo, hsum]
  rfl

theorem Node.composed_labelled : Node.labelled.Composed :=
  .sum (.literal rfl) (.signed (.inl rfl) (.literal rfl))

theorem Node.inRange_labelled {v : ScriptValue} (h : Node.labelled.Arises .bare v) : v.InRange := by
  cases h with
  | result h =>
    rw [Node.evaluate_labelled] at h
    cases h
    trivial
  | left h =>
    cases h with
    | result h =>
      cases h
      trivial
  | right _ h =>
    cases h with
    | result h =>
      cases h
      exact ⟨-2, Binary64.toInt?_minusTwo, by decide⟩
    | argument _ h =>
      cases h with
      | result h =>
        cases h
        exact ⟨2, Binary64.toInt?_ofInt (by decide), by decide⟩

/-- The text of `"a" + -2` is the string that it comes to. -/
theorem Node.Composed.constant_text_sound_labelled :
    Node.labelled.Composed ∧ (∀ v, Node.labelled.Arises .bare v → v.InRange) ∧
      Node.labelled.constantText? true = .ok (some (Text.ofString "a-2")) ∧
      ∃ v, Node.labelled.evaluate .bare = .ok v ∧
        World.bare.stringOf Node.labelled v = .ok (Text.ofString "a-2").units := by
  refine ⟨Node.composed_labelled, fun v => Node.inRange_labelled, Node.constantText?_labelled, _,
    Node.evaluate_labelled, ?_⟩
  exact (Node.composed_labelled.constant_text_sound fun v => Node.inRange_labelled).1 _ _
    Node.constantText?_labelled Node.evaluate_labelled

end ApiTrace
