import Mathlib.Data.List.TakeDrop
import ApiTrace.Constant.Folding
import ApiTrace.Proofs.Outcome
import ApiTrace.Syntax.Program

/-!
# Templates

The texts of a template are what the source has around its substitutions, and its expressions are
what stands in them. A substitution in which nothing stands has no expression, and it is only then
that a template has fewer expressions than substitutions. The text that a template comes to takes
texts and expressions in turn and ends with the text after the last expression, so it has all texts
exactly if something stands in every substitution (`Concrete.template_texts_in_turn`).
-/

namespace ApiTrace

namespace Concrete

/-! ## The parts of a template -/

/-- The substitutions of a template. -/
def substitutions (c : Concrete) : List Concrete :=
  c.children.filter fun d => d.head.named && d.head.kind == "template_substitution"

/-- What stands in a substitution: its first part that counts. -/
def content? (c : Concrete) : Option Concrete :=
  c.children.find? fun d => d.head.named && !Reading.skippedKinds.contains d.head.kind

/-- The stretches from an offset to another one that some nodes in between leave. -/
def stretches (start stop : Nat) (cs : List Concrete) : List (Nat × Nat) :=
  List.zip (start :: cs.map (·.head.span.stop)) (cs.map (·.head.span.start) ++ [stop])

/-- Whether a text is what the source has in a stretch, with its escape sequences decoded. -/
def DecodesTo (src : Source) (stretch : Nat × Nat) (t : Text) : Prop :=
  ∃ raw, src.slice stretch.1 stretch.2 = .ok raw ∧ Escape.decode raw = .ok t

/-- Whether texts and expressions are those of some substitutions between two offsets. -/
structure Consists (src : Source) (start stop : Nat) (cs : List Concrete) (texts : List Text)
    (expressions : List (Option Node)) : Prop where
  texts : List.Forall₂ (DecodesTo src) (stretches start stop cs) texts
  expressions : List.Forall₂ (fun d e => (d.read src).node = .ok e)
    (cs.filterMap content?) expressions

/-- The node of a template. -/
def templateNode (c : Concrete) (texts : List Text) (expressions : List (Option Node)) : Node :=
  .mk c.head.span (.template (texts.map fun t => .mk c.head.span (.templateElement t)) expressions)

variable {src : Source} {start stop : Nat} {c : Concrete} {cs : List Concrete} {texts : List Text}
  {expressions : List (Option Node)}

theorem length_stretches : (stretches start stop cs).length = cs.length + 1 := by
  simp [stretches]

namespace Consists

theorem length_texts (h : Consists src start stop cs texts expressions) :
    texts.length = cs.length + 1 := by
  rw [← h.texts.length_eq, length_stretches]

theorem length_expressions (h : Consists src start stop cs texts expressions) :
    expressions.length = (cs.filterMap content?).length := h.expressions.length_eq.symm

/-- There is no more than one text beyond the expressions exactly if something stands in every
substitution. -/
theorem length_texts_iff (h : Consists src start stop cs texts expressions) :
    texts.length ≤ expressions.length + 1 ↔ ∀ d ∈ cs, d.content?.isSome = true := by
  rw [h.length_texts, h.length_expressions, Nat.add_le_add_iff_right,
    List.length_filterMap_eq_countP, ← List.countP_eq_length]
  exact ⟨fun hle => Nat.le_antisymm List.countP_le_length hle, fun heq => Nat.le_of_eq heq.symm⟩

end Consists

/-! ## Reading a template -/

theorem readAll_eq_map (cs : List Concrete) : readAll src cs = cs.map (·.read src) := by
  induction cs with
  | nil => rfl
  | cons c cs ih => rw [readAll, ih, List.map_cons]

theorem phrase_read (c : Concrete) :
    (c.read src).phrase = ⟨c.head, c.children.map (·.read src)⟩ := by
  obtain ⟨head, children⟩ := c
  rw [read, ← readAll_eq_map]
  rfl

theorem head?_named_read (src : Source) (c : Concrete) :
    (c.read src).phrase.named.head? = c.content?.map (·.read src) := by
  have hcounts : Reading.counts ∘ (·.read src) =
      fun d : Concrete => d.head.named && !Reading.skippedKinds.contains d.head.kind := by
    funext d
    rw [Function.comp_apply, Reading.counts, Reading.kind, phrase_read]
  rw [phrase_read, Phrase.named, List.head?_filter, List.find?_map, hcounts]
  rfl

theorem decodesTo_of_quasi {t : Text} (h : Phrase.quasi src start stop = .ok t) :
    DecodesTo src (start, stop) t := by
  simp only [Phrase.quasi, Phrase.unescape, bind_eq_ok, mapError_eq_ok] at h
  exact h

/-- What is read from an offset on consists of the texts around the substitutions and of what stands
in them. -/
theorem consists_of_templateFrom
    (h : Phrase.templateFrom src start stop (cs.map (·.read src)) = .ok (texts, expressions)) :
    Consists src start stop cs texts expressions := by
  induction cs generalizing start texts expressions with
  | nil =>
    simp only [List.map_nil, Phrase.templateFrom, bind_eq_ok, pure_eq_ok, Prod.mk.injEq] at h
    obtain ⟨text, htext, rfl, rfl⟩ := h
    exact ⟨.cons (decodesTo_of_quasi htext) .nil, .nil⟩
  | cons d cs ih =>
    have hcontent := head?_named_read src d
    simp only [List.map_cons, Phrase.templateFrom, bind_eq_ok] at h
    obtain ⟨text, htext, h⟩ := h
    rw [Reading.span, phrase_read] at htext
    split at h
    · -- Nothing stands in the substitution.
      rename_i hnamed
      simp only [bind_eq_ok, pure_eq_ok, Prod.mk.injEq] at h
      obtain ⟨_, rfl, ⟨rest, others⟩, hrest, rfl, rfl⟩ := h
      rw [Reading.span, phrase_read] at hrest
      obtain ⟨htexts, hexpressions⟩ := ih hrest
      refine ⟨.cons (decodesTo_of_quasi htext) htexts, ?_⟩
      rw [hnamed, List.head?_nil] at hcontent
      rw [List.filterMap_cons_none (Option.map_eq_none_iff.1 hcontent.symm)]
      exact hexpressions
    · rename_i inner _ hnamed
      simp only [bind_eq_ok, pure_eq_ok, Prod.mk.injEq] at h
      obtain ⟨node, hnode, _, rfl, ⟨rest, others⟩, hrest, rfl, rfl⟩ := h
      rw [Reading.span, phrase_read] at hrest
      obtain ⟨htexts, hexpressions⟩ := ih hrest
      rw [hnamed, List.head?_cons] at hcontent
      obtain ⟨e, he, rfl⟩ := Option.map_eq_some_iff.1 hcontent.symm
      refine ⟨.cons (decodesTo_of_quasi htext) htexts, ?_⟩
      rw [List.filterMap_cons_some he]
      exact .cons hnode hexpressions

theorem filter_read (cs : List Concrete) :
    (cs.map (·.read src)).filter (fun r => r.phrase.head.named &&
      r.kind == "template_substitution") =
      (cs.filter fun d => d.head.named && d.head.kind == "template_substitution").map
        (·.read src) := by
  rw [List.filter_map]
  congr 2
  funext d
  rw [Function.comp_apply, Reading.kind, phrase_read]

theorem read_template (hkind : c.head.kind = "template_string") {o : Option Node}
    (h : (c.read src).node = .ok o) :
    ∃ texts expressions, o = some (c.templateNode texts expressions) ∧
      Consists src (c.head.span.start + 1) (src.offsetBefore c.head.span.stop) c.substitutions texts
        expressions := by
  obtain ⟨head, children⟩ := c
  rw [read, readAll_eq_map] at h
  change Phrase.read src ⟨head, children.map (·.read src)⟩ = .ok o at h
  have hrule : Phrase.read src ⟨head, children.map (·.read src)⟩ =
      Phrase.template src ⟨head, children.map (·.read src)⟩ >>= fun n => pure (some n) := by
    obtain ⟨kind, named, span, field⟩ := head
    obtain rfl : kind = "template_string" := hkind
    rfl
  simp only [hrule, Phrase.template, filter_read, bind_eq_ok, pure_eq_ok] at h
  obtain ⟨_, ⟨⟨texts, expressions⟩, hfrom, rfl⟩, rfl⟩ := h
  exact ⟨texts, expressions, rfl, consists_of_templateFrom hfrom⟩

/-! ## The text of a template -/

/-- Texts and values in turn, the texts first. Nothing is left out. -/
def inTurn : List Text → List Text → Text
  | t :: ts, v :: vs => t ++ (v ++ inTurn ts vs)
  | [], vs => vs.flatten
  | ts, [] => ts.flatten

/-- Whether an expression always has a text when it is put into another. -/
def Folds (joins : Bool) (e : Option Node) (t : Text) : Prop :=
  ∃ n, e = some n ∧ n.constantText? joins = .ok (some t)

theorem constantText?_eq_some {joins : Bool} {n : Node} {t : Text} :
    n.constantText? joins = .ok (some t) ↔
    ∃ value, n.constant? joins = .ok (some value) ∧ value.toText = .ok t := by
  rw [Node.constantText?, bind_eq_ok]
  constructor
  · rintro ⟨_ | value, hvalue, h⟩
    · cases h
    · simp only [bind_eq_ok, pure_eq_ok, Option.some.injEq] at h
      obtain ⟨_, ht, rfl⟩ := h
      exact ⟨value, hvalue, ht⟩
  · rintro ⟨value, hvalue, ht⟩
    refine ⟨some value, hvalue, ?_⟩
    simp only [bind_eq_ok, pure_eq_ok]
    exact ⟨t, ht, rfl⟩

theorem operand_eq_some {joins : Bool} {e : Option Node} {value : Constant}
    (h : Form.operand joins e = .ok (some value)) :
    ∃ n, e = some n ∧ n.constant? joins = .ok (some value) := by
  cases e with
  | none => cases h
  | some n => exact ⟨n, rfl, h⟩

/-- After its first text a template takes expressions and texts in turn, as long as there are
expressions. -/
theorem templateRest_iff {joins : Bool} (span : Span) {first t : Text}
    (h : expressions.length ≤ texts.length) :
    (∃ rest, Form.templateRest joins expressions
      (texts.map fun t => .mk span (.templateElement t)) = .ok (some rest) ∧
        t = first ++ rest) ↔
      ∃ values, List.Forall₂ (Folds joins) expressions values ∧
        t = inTurn (first :: texts.take expressions.length) values := by
  induction expressions generalizing first texts t with
  | nil =>
    have hrest : Form.templateRest joins [] (texts.map fun t => .mk span (.templateElement t)) = .ok
        (some []) := by
      rw [Form.templateRest.eq_def]
    have hturn : inTurn (first :: texts.take 0) [] = first ++ [] := rfl
    constructor
    · rintro ⟨rest, hsome, rfl⟩
      rw [hrest] at hsome
      cases hsome
      exact ⟨[], .nil, hturn.symm⟩
    · rintro ⟨_, ⟨⟩, rfl⟩
      exact ⟨[], hrest, hturn⟩
  | cons e es ih =>
    cases texts with
    | nil => cases h
    | cons text texts =>
      have hle : es.length ≤ texts.length := Nat.le_of_succ_le_succ h
      simp only [List.map_cons, Form.templateRest, bind_eq_ok]
      constructor
      · rintro ⟨rest, ⟨_ | value, hvalue, h⟩, rfl⟩
        · cases h
        · simp only [bind_eq_ok, pure_eq_ok] at h
          obtain ⟨v, hv, _, htext, _ | rest', hrest, h⟩ := h
          · cases h
          · cases htext
            cases h
            obtain ⟨n, rfl, hn⟩ := operand_eq_some hvalue
            obtain ⟨values, hvalues, hturn⟩ := (ih hle).1 ⟨rest', hrest, rfl⟩
            refine ⟨v :: values, .cons ⟨n, rfl, constantText?_eq_some.2 ⟨value, hn, hv⟩⟩
              hvalues, ?_⟩
            show first ++ (v ++ text ++ rest') = first ++
              (v ++ inTurn (text :: texts.take es.length) values)
            rw [← hturn, List.append_assoc]
      · rintro ⟨_, hall, rfl⟩
        cases hall with
        | @cons _ v _ values hfolds hvalues =>
          obtain ⟨n, rfl, hn⟩ := hfolds
          obtain ⟨value, hvalue, hv⟩ := constantText?_eq_some.1 hn
          obtain ⟨rest', hrest, hturn⟩ := (ih hle).2 ⟨values, hvalues, rfl⟩
          refine ⟨v ++ text ++ rest', ⟨some value, hvalue, ?_⟩, ?_⟩
          · simp only [bind_eq_ok, pure_eq_ok]
            exact ⟨v, hv, text, rfl, some rest', hrest, rfl⟩
          · show first ++ (v ++ inTurn (text :: texts.take es.length) values) = first ++
              (v ++ text ++ rest')
            rw [hturn, List.append_assoc]

theorem constant?_templateNode (joins : Bool) (first : Text) :
    (c.templateNode (first :: texts) expressions).constant? joins =
      if !expressions.isEmpty && !joins then .ok none
      else Form.templateRest joins expressions
        (texts.map fun t => .mk c.head.span (.templateElement t)) >>=
        fun rest => pure (rest.map fun t => .string (first ++ t)) := by
  rw [templateNode, Node.constant?, Form.constant?.eq_def]
  rfl

/-- A template has a text exactly if all its expressions have one, and texts are joined if there are
any. -/
theorem constantText?_templateNode {joins : Bool} {t : Text}
    (h : expressions.length < texts.length) :
    (c.templateNode texts expressions).constantText? joins = .ok (some t) ↔
      (expressions = [] ∨ joins = true) ∧ ∃ values, List.Forall₂ (Folds joins) expressions values ∧
        t = inTurn (texts.take (expressions.length + 1)) values := by
  cases texts with
  | nil => cases h
  | cons first texts =>
    have hplain : expressions = [] ∨ joins = true ↔ ¬ (!expressions.isEmpty && !joins) = true := by
      cases expressions <;> cases joins <;> simp
    rw [constantText?_eq_some, constant?_templateNode, List.take_succ_cons, hplain,
      ← templateRest_iff c.head.span (Nat.le_of_lt_succ h)]
    split
    · rename_i hjoins
      refine iff_of_false ?_ fun hand => hand.1 hjoins
      rintro ⟨value, hvalue, -⟩
      cases hvalue
    · rename_i hjoins
      simp only [bind_eq_ok, pure_eq_ok]
      constructor
      · rintro ⟨value, ⟨rest, hrest, hvalue⟩, ht⟩
        obtain ⟨u, rfl, rfl⟩ := Option.map_eq_some_iff.1 hvalue
        exact ⟨hjoins, u, hrest, (Except.ok.inj ht).symm⟩
      · rintro ⟨-, rest, hrest, rfl⟩
        exact ⟨_, ⟨some rest, hrest, rfl⟩, rfl⟩

/-- The texts of a template are those around its substitutions, and there is one more than
expressions exactly if something stands in every substitution. What the template comes to has the
texts up to the one after the last expression, which are all of them in just this case. -/
theorem template_texts_in_turn (hkind : c.head.kind = "template_string") {o : Option Node}
    (h : (c.read src).node = .ok o) :
    ∃ texts expressions, o = some (c.templateNode texts expressions) ∧
      Consists src (c.head.span.start + 1) (src.offsetBefore c.head.span.stop) c.substitutions texts
        expressions ∧
      (texts.length = expressions.length + 1 ↔ ∀ d ∈ c.substitutions, d.content?.isSome = true) ∧
      (texts.take (expressions.length + 1) = texts ↔
        ∀ d ∈ c.substitutions, d.content?.isSome = true) ∧
      ∀ joins t, (c.templateNode texts expressions).constantText? joins = .ok (some t) ↔
        (expressions = [] ∨ joins = true) ∧
        ∃ values, List.Forall₂ (Folds joins) expressions values ∧
          t = inTurn (texts.take (expressions.length + 1)) values := by
  obtain ⟨texts, expressions, ho, hconsists⟩ := read_template hkind h
  have hlt : expressions.length < texts.length := by
    rw [hconsists.length_texts, hconsists.length_expressions]
    exact Nat.lt_succ_of_le (List.length_filterMap_le _ _)
  have hall := hconsists.length_texts_iff
  refine ⟨texts, expressions, ho, hconsists, ?_, ?_, fun joins t => constantText?_templateNode hlt⟩
  · rw [← hall]
    omega
  · rw [← hall, List.take_eq_self_iff]

/-- The template `${}b${"x"}c` between backquotes, with nothing in its first substitution. -/
def gappedTemplate : Concrete :=
  let node :=
    fun kind start stop children => Concrete.mk ⟨kind, true, ⟨start, stop, 1, start⟩, none⟩ children
  node "template_string" 0 13 [
    node "template_substitution" 1 4 [],
    node "string_fragment" 4 5 [],
    node "template_substitution" 5 11 [node "string" 7 10 [node "string_fragment" 8 9 []]],
    node "string_fragment" 11 12 []]

/-- The text that `gappedTemplate` comes to in a source. -/
def gappedText (src : Source) : Except ConstantFault (Option Text) :=
  match (gappedTemplate.read src).node with
  | .ok (some n) => n.constantText? true
  | _ => .ok none

/-- Where nothing stands in a substitution, the last text of the template is lost. -/
theorem template_texts_in_turn_gap : gappedTemplate.head.kind = "template_string" ∧
    gappedTemplate.substitutions.map (·.content?.isSome) = [false, true] ∧
    ∃ (src : Source) (texts : List Text) (expressions : List (Option Node)),
      (gappedTemplate.read src).node = .ok (some (gappedTemplate.templateNode texts expressions)) ∧
      texts.length ≠ expressions.length + 1 ∧ texts.take (expressions.length + 1) ≠ texts ∧
      (gappedTemplate.templateNode texts expressions).constantText? true = .ok
        (some (Text.ofString "xb")) := by
  have hcontents : gappedTemplate.substitutions.map (·.content?.isSome) = [false, true] := by decide
  have htext : (Source.ofText? "`$\x7b\x7db$\x7b\"x\"\x7dc`").any (fun src => decide
      (gappedText src = .ok (some (Text.ofString "xb")))) = true := by decide +kernel
  obtain ⟨src, -, htext⟩ := (Option.any_eq_true _ _).1 htext
  have htext := of_decide_eq_true htext
  have hgap : ¬ ∀ d ∈ gappedTemplate.substitutions, d.content?.isSome = true := by decide
  refine ⟨rfl, hcontents, src, ?_⟩
  unfold gappedText at htext
  split at htext
  · rename_i n hread
    obtain ⟨texts, expressions, ho, -, hlength, htake, -⟩ := template_texts_in_turn rfl hread
    cases ho
    exact ⟨texts, expressions, hread, mt hlength.1 hgap, mt htake.1 hgap, htext⟩
  · cases htext

end Concrete

end ApiTrace
