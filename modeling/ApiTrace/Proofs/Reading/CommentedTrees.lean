import ApiTrace.Proofs.Reading.Comments
import ApiTrace.Trace.Result

/-!
# Trees with comments put in

`Concrete.Commented` relates a concrete tree to itself with comments put in, any number of them,
anywhere among the children of its nodes, with whatever is inside them. Only before the first child
of an increment there is no place for one. Both trees stand for the same program, or have the same
fault, so nothing that is computed from the tree sees the comments
(`Concrete.Commented.unobservable`).
-/

namespace ApiTrace

namespace Concrete

/-- The second children are the first ones with comments put in, at all depths. -/
inductive CommentedAll : List Concrete → List Concrete → Prop
  | nil : CommentedAll [] []
  /-- A node that is there in both. An increment keeps its first child. -/
  | keep {head : Head} {inside inside' rest rest' : List Concrete}
      (hinside : CommentedAll inside inside')
      (hfirst : head.kind = "update_expression" →
        inside'.head?.map (·.head.kind) = inside.head?.map (·.head.kind))
      (hrest : CommentedAll rest rest') : CommentedAll (mk head inside :: rest)
      (mk head inside' :: rest')
  /-- A comment that is put in. -/
  | insert {comment : Concrete} {rest rest' : List Concrete}
      (hcomment : comment.head.isComment = true)
      (hrest : CommentedAll rest rest') : CommentedAll rest (comment :: rest')

/-- The second tree is the first one with comments put in. -/
structure Commented (c c' : Concrete) : Prop where
  head : c'.head = c.head
  children : CommentedAll c.children c'.children

variable {src : Source}

theorem head_read (c : Concrete) : (c.read src).phrase.head = c.head := by
  obtain ⟨head, children⟩ := c
  rw [read]
  rfl

theorem kind_head_readAll (cs : List Concrete) :
    (readAll src cs).head?.map Reading.kind = cs.head?.map (·.head.kind) := by
  cases cs with
  | nil => rw [readAll]; rfl
  | cons c cs =>
    rw [readAll]
    exact congrArg (fun head : Head => some head.kind) c.head_read

/-- Trees that differ in comments only have the same reading without comments. -/
theorem CommentedAll.bareAll_readAll {cs cs' : List Concrete} (h : CommentedAll cs cs') :
    Reading.bareAll (readAll src cs') = Reading.bareAll (readAll src cs) := by
  induction h with
  | nil => rfl
  | @keep head inside inside' rest rest' _ hfirst _ ihinside ihrest =>
    have hbare : Phrase.bare ⟨head, readAll src inside'⟩ = Phrase.bare ⟨head, readAll src inside⟩ :=
      congrArg (Phrase.mk head) ihinside
    have hread : ((mk head inside').read src).bare = ((mk head inside).read src).bare := by
      rw [read, read, Reading.bare, Reading.bare, ihinside]
      rw [Phrase.read_congr hbare]
      intro hkind
      rw [kind_head_readAll, kind_head_readAll]
      exact hfirst hkind
    -- Both have the same head, so either both are left out or none is.
    have hcomment : ((mk head inside').read src).isComment =
        ((mk head inside).read src).isComment := by
      rw [Reading.isComment, Reading.isComment, head_read, head_read]
      rfl
    rw [readAll, readAll, Reading.bareAll, Reading.bareAll, hread, hcomment, ihrest]
  | @insert comment rest rest' hcomment _ ih =>
    have hskip : (comment.read src).isComment = true := by
      rw [Reading.isComment, head_read]
      exact hcomment
    rw [readAll, Reading.bareAll, hskip]
    exact ih

/-- Trees that differ in comments only stand for the same program, or have the same fault. -/
theorem Commented.ofConcrete_eq {c c' : Concrete} (h : c.Commented c') (sourceType : Option Text) :
    Node.ofConcrete src sourceType c' = Node.ofConcrete src sourceType c := by
  have hbare : Phrase.bare ⟨c'.head, readAll src c'.children⟩ = Phrase.bare
      ⟨c.head, readAll src c.children⟩ := by
    rw [Phrase.bare, Phrase.bare, h.head, h.children.bareAll_readAll]
  unfold Node.ofConcrete
  rw [← Phrase.program_bare, hbare, Phrase.program_bare]

theorem Commented.analyzeSource_eq {c c' : Concrete} (h : c.Commented c') (hasError : Bool)
    (source filepath : Text) (sourceType : Option Text) :
    analyzeSource source filepath sourceType ⟨c', hasError⟩
      = analyzeSource source filepath sourceType ⟨c, hasError⟩ := by
  have hparsing : ParseSession.parsing source filepath sourceType ⟨c', hasError⟩
      = ParseSession.parsing source filepath sourceType ⟨c, hasError⟩ := by
    simp only [ParseSession.parsing, ParseSession.convert, h.ofConcrete_eq]
  unfold analyzeSource ParseSession.parse
  rw [hparsing]

/-- Comments that are put into a tree are not seen: the program stays the same in every type, place
and field, or the fault does; so do the scope graph, the log and the session of an analysis, and the
matches of every trace. -/
theorem Commented.unobservable {c c' : Concrete} (h : c.Commented c') :
    (∀ (src : Source) (sourceType : Option Text),
      Node.ofConcrete src sourceType c' = Node.ofConcrete src sourceType c) ∧
    ∀ hasError : Bool,
      (∀ (source filepath : Text) (sourceType : Option Text),
        analyzeSource source filepath sourceType ⟨c', hasError⟩
          = analyzeSource source filepath sourceType ⟨c, hasError⟩) ∧
      ∀ (ι : Type) (request : TraceRequest) (map : Except Outline.Fault (TraceMap ι))
        (settings : Settings),
        { request with tree := ⟨c', hasError⟩ }.trace map settings
          = { request with tree := ⟨c, hasError⟩ }.trace map settings := by
  refine ⟨fun src sourceType => h.ofConcrete_eq sourceType, fun hasError => ⟨?_, ?_⟩⟩
  · intro source filepath sourceType
    exact h.analyzeSource_eq hasError source filepath sourceType
  · intro ι request map settings
    unfold TraceRequest.trace
    rw [h.analyzeSource_eq]
    rfl

/-- The tree of `i++` with some nodes put in before the statement and after the variable. -/
def incrementTree (nodes : List Concrete) : Concrete :=
  mk ⟨"program", true, ⟨0, 3, 1, 0⟩, none⟩ (nodes ++ [
    mk ⟨"expression_statement", true, ⟨0, 3, 1, 0⟩, none⟩ [
      mk ⟨"update_expression", true, ⟨0, 3, 1, 0⟩, none⟩ (
        mk ⟨"identifier", true, ⟨0, 1, 1, 0⟩, some "argument"⟩ [] ::
          (nodes ++ [mk ⟨"++", false, ⟨1, 3, 1, 1⟩, some "operator"⟩ []]))]])

/-- Two comments, one of which has a child and lies outside of the source. -/
def strayComments : List Concrete :=
  [mk ⟨"hash_bang_line", false, ⟨0, 0, 1, 0⟩, none⟩ [],
    mk ⟨"html_comment", true, ⟨7, 5, 0, 9⟩, none⟩
      [mk ⟨"identifier", true, ⟨8, 9, 2, 2⟩, some "name"⟩ []]]

theorem Commented.unobservable_increment :
    (incrementTree []).Commented (incrementTree strayComments) ∧
    analyzeSource "i++" [] none ⟨incrementTree strayComments, false⟩
      = analyzeSource "i++" [] none ⟨incrementTree [], false⟩ ∧
    (analyzeSource "i++" [] none ⟨incrementTree strayComments, false⟩).isOk = true := by
  have hcommented : (incrementTree []).Commented (incrementTree strayComments) := by
    refine ⟨rfl, .insert rfl
      (.insert rfl (.keep (.keep (.keep .nil (fun _ => rfl) ?_) ?_ .nil) ?_ .nil))⟩
    · exact .insert rfl (.insert rfl (.keep .nil (fun _ => rfl) .nil))
    · intro _
      rfl
    · intro h
      exact absurd h (by decide)
  have hsame := ((Commented.unobservable hcommented).2 false).1 "i++" [] none
  refine ⟨hcommented, hsame, ?_⟩
  rw [hsame]
  decide +kernel

end Concrete

end ApiTrace
