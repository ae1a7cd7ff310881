import ApiTrace.Syntax.Session

/-!
# Sessions after any calls

A session can be used again and again. All that one call leaves behind for the next are the bytes of
the last source that had any, and a parse reads only after it has put its own in their place
(`parse_cases`). So whatever was called before, be it a parse that ended half-way in a fault, a
parse does what it does in a fresh session (`ParseSession.carries_nothing_over`).
-/

namespace ApiTrace

theorem Source.text_of_ofText? {text : Text} {src : Source} (h : ofText? text = some src) :
    src.text = text := by
  unfold ofText? at h
  split at h
  · rw [← Option.some.inj h]
  · cases h

namespace ParseSession

variable (s : ParseSession) (source filepath : Text) (sourceType : Option Text)
    (tree : ConcreteTree)

/-! ## The steps of a parse -/

theorem bind_apply {α β : Type} (x : Action α) (f : α → Action β) : (x >>= f) s =
    match x s with
    | .ok a s' => f a s'
    | .error fault s' => .error fault s' := by
  simp only [bind, EStateM.bind]
  cases x s <;> rfl

theorem modify_apply (f : ParseSession → ParseSession) :
    (modify f : Action PUnit) s = .ok ⟨⟩ (f s) := rfl

theorem get_apply : (get : Action ParseSession) s = .ok s s := rfl

theorem encode_apply : encode source s =
    match Source.ofText? source with
    | none => .error .notEncodable s
    | some src => .ok () { s with encoded := src } := by
  unfold encode
  cases Source.ofText? source <;> rfl

theorem convert_apply : convert sourceType tree s =
    match Node.ofConcrete s.encoded sourceType tree.root with
    | .error fault => .error fault s
    | .ok program => .ok program s := by
  simp only [convert, bind_apply, get_apply]
  cases Node.ofConcrete s.encoded sourceType tree.root <;> rfl

/-- What a parse leaves and answers: a program with everything about its source, or a fault and no
program. Neither depends on what the session was before; what it still has of that after a fault are
bytes. -/
theorem parse_cases :
    (∃ program src, src.text = source ∧ programOf source sourceType tree = .ok program ∧
      s.parse source filepath sourceType tree =
        (⟨source, filepath, Text.lines source, !tree.hasError, program, src⟩, .ok !tree.hasError)) ∨
    ∃ fault kept, programOf source sourceType tree = .error fault ∧
      s.parse source filepath sourceType tree =
        (⟨source, filepath, Text.lines source, false, none, kept⟩, .error fault) := by
  simp only [parse, parsing, bind_apply, modify_apply, encode_apply, programOf]
  cases hsrc : Source.ofText? source with
  | none => exact .inr ⟨_, _, rfl, rfl⟩
  | some src =>
    simp only [convert_apply]
    cases Node.ofConcrete src sourceType tree.root with
    | error fault => exact .inr ⟨_, _, rfl, rfl⟩
    | ok program => exact .inl ⟨_, _, Source.text_of_ofText? hsrc, rfl, rfl⟩

/-! ## Calls -/

/-- What can be asked of a session. -/
structure View where
  source : Option Text
  filepath : Option Text
  lines : List Text
  isParsed : Bool
  program : Option Node

/-- Everything about a session but the bytes that it keeps. -/
def view : View := ⟨s.source, s.filepath, s.lines, s.isParsed, s.program⟩

/-- A call that changes a session. -/
inductive Call where
  | parse (source filepath : Text) (sourceType : Option Text) (tree : ConcreteTree)
  | reset

/-- The session after a call. A parse that ends in a fault leaves the session as it is by then. -/
def call : Call → ParseSession
  | .parse source filepath sourceType tree => (s.parse source filepath sourceType tree).1
  | .reset => s.reset

/-- The session after some calls, from the first to the last. -/
def after (calls : List Call) : ParseSession := calls.foldl call fresh

theorem parse_eq_fresh :
    (s.parse source filepath sourceType tree).2 = (fresh.parse source filepath sourceType tree).2 ∧
      (s.parse source filepath sourceType tree).1.view
        = (fresh.parse source filepath sourceType tree).1.view := by
  rcases s.parse_cases source filepath sourceType tree with
      ⟨program, src, -, hprogram, hparse⟩ | ⟨fault, kept, hfault, hparse⟩ <;>
    rcases fresh.parse_cases source filepath sourceType tree with
      ⟨program', src', -, hprogram', hparse'⟩ | ⟨fault', kept', hfault', hparse'⟩ <;>
    rw [hparse, hparse']
  · rw [← Except.ok.inj (hprogram.symm.trans hprogram')]
    exact ⟨rfl, rfl⟩
  · cases hprogram.symm.trans hfault'
  · cases hfault.symm.trans hprogram'
  · rw [← Except.error.inj (hfault.symm.trans hfault')]
    exact ⟨rfl, rfl⟩

/-- What holds of a session after a call: it has a program if the source had no syntax errors, and
its program comes of the source and the bytes that it has now, which are those that the call
parsed. -/
structure Holds (last : Call) : Prop where
  parsed : s.isParsed = true → s.program.isSome = true
  built : ∀ program, s.program = some program → ∃ source filepath sourceType tree,
    last = .parse source filepath sourceType tree ∧ programOf source sourceType tree = .ok program ∧
      s.source = some source ∧ s.lines = Text.lines source ∧ s.encoded.text = source ∧
      s.isParsed = !tree.hasError

theorem holds_without_program {last : Call} (hparsed : s.isParsed = false)
    (hprogram : s.program = none) :
    s.Holds last := by
  constructor
  · intro h
    cases hparsed.symm.trans h
  · intro program h
    cases hprogram.symm.trans h

theorem holds_call (c : Call) : (s.call c).Holds c := by
  cases c with
  | reset => exact holds_without_program _ rfl rfl
  | parse source filepath sourceType tree =>
    show Holds (s.parse source filepath sourceType tree).1 _
    rcases s.parse_cases source filepath sourceType tree with
      ⟨program, src, htext, hprogram, hparse⟩ | ⟨fault, kept, -, hparse⟩
    · rw [hparse]
      refine ⟨fun _ => rfl, fun program' h => ?_⟩
      rw [← Option.some.inj h]
      exact ⟨_, _, _, _, rfl, hprogram, rfl, rfl, htext, rfl⟩
    · rw [hparse]
      exact holds_without_program _ rfl rfl

/-! ## Any calls -/

/-- **A session carries nothing over.** After any calls, some of which may have ended in a fault,

* a parse has the answer or the fault that it has in a fresh session, and after it the two sessions
  have the same source, file path, lines, flag and program,
* these are the source and the file path of the call, the lines of the source, the answer and the
  program of the source, if the parse ends with an answer; after a fault there is no program,
* a reset session is as good as fresh,
* a source without syntax errors has a program, and a program is the one of the source, lines and
  bytes that the session has now, which the last call parsed. -/
theorem carries_nothing_over (calls : List Call) :
    (∀ source filepath sourceType tree,
      let again := (after calls).parse source filepath sourceType tree
      let first := fresh.parse source filepath sourceType tree
      again.2 = first.2 ∧ again.1.view = first.1.view ∧
        (∀ answer, again.2 = .ok answer → answer = !tree.hasError ∧ again.1.encoded.text = source ∧
          ∃ program, programOf source sourceType tree = .ok program ∧
            again.1.view = ⟨source, filepath, Text.lines source, answer, program⟩) ∧
        ∀ fault, again.2 = .error fault → programOf source sourceType tree = .error fault ∧
          again.1.program = none ∧ again.1.isParsed = false) ∧
    (after calls).reset.view = fresh.view ∧
    ((after calls).isParsed = true → (after calls).program.isSome = true) ∧
    ∀ program, (after calls).program = some program → ∃ earlier source filepath sourceType tree,
      calls = earlier ++ [Call.parse source filepath sourceType tree] ∧
      programOf source sourceType tree = .ok program ∧
      (after calls).source = some source ∧ (after calls).lines = Text.lines source ∧
      (after calls).encoded.text = source ∧ (after calls).isParsed = !tree.hasError := by
  refine ⟨fun source filepath sourceType tree => ?_, rfl, ?_⟩
  · obtain ⟨hanswer, hview⟩ := (after calls).parse_eq_fresh source filepath sourceType tree
    refine ⟨hanswer, hview, ?_⟩
    rcases (after calls).parse_cases source filepath sourceType tree with
      ⟨program, src, htext, hprogram, hparse⟩ | ⟨fault, kept, hfault, hparse⟩
    · rw [hparse]
      refine ⟨fun answer h => ?_, fun fault h => ?_⟩
      · cases h
        exact ⟨rfl, htext, program, hprogram, rfl⟩
      · cases h
    · rw [hparse]
      refine ⟨fun answer h => ?_, fun fault' h => ?_⟩
      · cases h
      · cases h
        exact ⟨hfault, rfl, rfl⟩
  · rcases List.eq_nil_or_concat calls with rfl | ⟨earlier, last, rfl⟩
    · have hfresh : (after []).Holds .reset := holds_without_program _ rfl rfl
      refine ⟨hfresh.parsed, fun program h => ?_⟩
      obtain ⟨_, _, _, _, hlast, _⟩ := hfresh.built program h
      cases hlast
    · have hafter : after (earlier ++ [last]) = (after earlier).call last := by
        rw [after, List.foldl_append]
        rfl
      have hholds := (after earlier).holds_call last
      rw [List.concat_eq_append, hafter]
      refine ⟨hholds.parsed, fun program h => ?_⟩
      obtain ⟨source, filepath, sourceType, tree, rfl, hbuilt⟩ := hholds.built program h
      exact ⟨earlier, source, filepath, sourceType, tree, rfl, hbuilt⟩

/-- The bytes of a source stay when the session is reset. -/
example : ((fresh.parse "a" [] none ⟨.mk ⟨"program", true, ⟨0, 1, 1, 0⟩, none⟩ [],
      false⟩).1.reset).encoded.text
    = Text.ofString "a" := by
  decide

end ParseSession

end ApiTrace
