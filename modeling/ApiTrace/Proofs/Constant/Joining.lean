import ApiTrace.Constant.Key

/-!
# Joining texts answers more questions

Without joining texts an expression has a constant value only if nothing is put together in it: it
is a literal, a template without expressions, or one of these with a sign. Joining leaves such
values as they are. So a question for a value, for a text or for the key of a property is answered
in the same way whether texts are joined or not, or it is not answered where they are not
(`Node.constant?_upTo`, `Node.constantText?_upTo`, `Node.key?_upTo`).
-/

namespace ApiTrace

variable {ε α β : Type}

/-- Whether a question is answered as another one, in a fault too, or is left open. -/
def UpTo (answer answer' : Except ε (Option α)) : Prop := answer = .ok none ∨ answer = answer'

namespace UpTo

variable {answer answer' : Except ε (Option α)}

theorem refl (answer : Except ε (Option α)) : UpTo answer answer := .inr rfl

theorem eq_some (h : UpTo answer answer') {a : α} (ha : answer = .ok (some a)) :
    answer' = .ok (some a) := by
  rcases h with h | rfl
  · rw [h] at ha
    cases ha
  · exact ha

theorem eq_error (h : UpTo answer answer') {fault : ε} (hf : answer = .error fault) :
    answer' = .error fault := by
  rcases h with h | rfl
  · rw [h] at hf
    cases hf
  · exact hf

theorem of_joins (answer : Bool → Except ε (Option α)) (h : UpTo (answer false) (answer true))
    {joins joins' : Bool} (hjoins : joins = true → joins' = true) :
    UpTo (answer joins) (answer joins') := by
  cases joins with
  | true =>
    rw [hjoins rfl]
    exact .refl _
  | false =>
    cases joins' with
    | true => exact h
    | false => exact .refl _

/-- Going on with an answer leaves open what was left open. -/
theorem bind (h : UpTo answer answer') {f : Option α → Except ε (Option β)}
    (hf : f none = .ok none) :
    UpTo (answer >>= f) (answer' >>= f) := by
  rcases h with rfl | rfl
  · exact .inl hf
  · exact .refl _

end UpTo

/-! ## Values -/

/-- Only a sign keeps what becomes of its operand, so the recursion goes through signs alone: sums
and templates with expressions have no value as long as texts are not joined. -/
theorem Form.constant?_upTo (form : Form) : UpTo (form.constant? false) (form.constant? true) := by
  cases form with
  | unary operator argument =>
    simp only [Form.constant?]
    split
    · cases argument with
      | none => exact .refl _
      | some n =>
        obtain ⟨span, argument⟩ := n
        have h : UpTo (argument.constant? false) (argument.constant? true) :=
          Form.constant?_upTo argument
        exact h.bind rfl
    · exact .refl _
  | binary left operator right =>
    refine .inl ?_
    rw [Form.constant?, if_neg fun h => Bool.noConfusion h.2]
  | template quasis expressions =>
    cases expressions with
    | nil =>
      simp only [Form.constant?, Form.templateRest]
      exact .refl _
    | cons expression expressions =>
      refine .inl ?_
      simp [Form.constant?]
  | _ =>
    simp only [Form.constant?]
    exact .refl _

theorem Node.constant?_upTo (n : Node) : UpTo (n.constant? false) (n.constant? true) := by
  obtain ⟨span, form⟩ := n
  exact form.constant?_upTo

/-! ## Texts and keys -/

theorem Node.constantText?_upTo (n : Node) : UpTo (n.constantText? false) (n.constantText? true) :=
  n.constant?_upTo.bind rfl

theorem optionConstantText?_upTo (n : Option Node) :
    UpTo (optionConstantText? false n) (optionConstantText? true n) := by
  cases n with
  | none => exact .refl _
  | some n => exact n.constantText?_upTo

theorem writtenKey?_upTo (key : Option Node) :
    UpTo (writtenKey? false key) (writtenKey? true key) := by
  cases key with
  | none => exact .refl _
  | some key =>
    unfold writtenKey?
    dsimp only
    split
    · exact key.constantText?_upTo
    · exact .refl _
    · exact .refl _
    · exact .refl _

theorem Node.key?_upTo (n : Node) : UpTo (n.key? false) (n.key? true) := by
  unfold Node.key? Form.key?
  split
  · split
    · exact optionConstantText?_upTo _
    · exact .refl _
  · split
    · exact optionConstantText?_upTo _
    · exact writtenKey?_upTo _
  · split
    · exact optionConstantText?_upTo _
    · exact writtenKey?_upTo _
  · split
    · exact optionConstantText?_upTo _
    · exact writtenKey?_upTo _
  · exact .refl _
  · exact .refl _

end ApiTrace
