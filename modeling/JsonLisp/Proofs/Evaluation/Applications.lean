import JsonLisp.Proofs.Evaluation.Congruence
import Mathlib.Data.List.TakeWhile

/-!
# What is applied and what is printed

`p` prints the wire forms of its arguments up to the first that has no text. Put a primitive in its
place that fails where `p` does, but notes all its arguments at once instead of printing them: the
evaluation takes the same steps, and what it has noted tells what is printed.

## Main definitions

* `Primitive.note`, `noter`: the primitive that notes its arguments, and evaluation with it.
* `applications`: the arguments of each application of `p`, in order.
* `shown`: what such applications print.

## Main results

* `printed_of_keepsNotes`: the printed documents, from those before a computation and from the
  applications.
-/

namespace JsonLisp

namespace Json

/-- Whether the document can be written. -/
def hasText (d : Json) : Bool := d.write.isOk

theorem hasText_iff {d : Json} : d.hasText = true ↔ ∃ t, d.write = .ok t := by
  unfold hasText
  cases d.write with
  | ok t => exact ⟨fun _ => ⟨t, rfl⟩, fun _ => rfl⟩
  | error fault => exact ⟨nofun, nofun⟩

def items : Json → List Json
  | .list ds => ds
  | _ => []

end Json

/-! ### Applications -/

/-- What `p` prints when it is applied to arguments with these wire forms, time after time: of each
application those before the first without a text. -/
def shown (applications : List (List Json)) : List Json :=
  applications.flatMap fun args => args.takeWhile Json.hasText

@[simp] theorem shown_nil : shown [] = [] := rfl

@[simp] theorem shown_append (early late : List (List Json)) :
    shown (early ++ late) = shown early ++ shown late := List.flatMap_append

@[simp] theorem shown_singleton (args : List Json) : shown [args] = args.takeWhile Json.hasText :=
  List.flatMap_singleton ..

theorem hasText_of_mem_shown {applications : List (List Json)} {d : Json}
    (h : d ∈ shown applications) : d.hasText = true := by
  obtain ⟨args, -, hd⟩ := List.mem_flatMap.1 h
  exact List.mem_takeWhile_imp hd

namespace Primitive

/-- `p` prints up to the first argument without a text, and fails there if there is one. -/
theorem printAll_eq (args : List Value) (s : State) :
    printAll args s = Run.ofExcept ((fun _ => ()) <$> args.mapM Value.encode)
      { s with printed := (shown [args.map Value.wire]).reverse ++ s.printed } := by
  rw [shown_singleton]
  induction args generalizing s with
  | nil => rfl
  | cons v rest ih =>
    have hprint := print_eq v.wire s
    change (Run.print v.wire >>= fun _ => printAll rest) s = _
    cases hwrite : v.wire.write with
    | error fault =>
      have hencode : v.encode = .error (.noJsonForm fault) := by rw [Value.encode, hwrite]; rfl
      have htext : v.wire.hasText = false := by rw [Json.hasText, hwrite]; rfl
      rw [hwrite] at hprint
      rw [bind_of_error hprint, List.mapM_cons, hencode, List.map_cons,
        List.takeWhile_cons_of_neg (by simp [htext])]
      rfl
    | ok text =>
      have hencode : v.encode = .ok text := by rw [Value.encode, hwrite]; rfl
      have htext : v.wire.hasText = true := Json.hasText_iff.2 ⟨text, hwrite⟩
      rw [hwrite] at hprint
      rw [bind_of_ok hprint, ih, List.mapM_cons, hencode, List.map_cons,
        List.takeWhile_cons_of_pos htext, List.reverse_cons, List.append_assoc]
      cases rest.mapM Value.encode <;> rfl

/-- The wire forms of the arguments are noted as one document. The call fails where `p` does. -/
def note (args : List Value) : Run Value := do
  modify fun s => { s with printed := .list (args.map Value.wire) :: s.printed }
  let _ ← Run.ofExcept (args.mapM Value.encode)
  return passedOn args

/-- The primitives, with a note in the place of each print. -/
def runNoting (p : Primitive) (args : List Value) : Run Value :=
  if p = .print then note args else p.run args

end Primitive

def evaluateNoting (limits : Limits) : Eval := fun v env s =>
  evalLevels Primitive.runNoting limits (levelsLeft limits s) v env s

/-- The engine of a session, with a note in the place of each print. -/
def noter (limits : Limits) : Engine := ⟨evaluateNoting limits, Primitive.runNoting⟩

namespace State

/-- The applications that were noted, in order. -/
def noted (s : State) : List (List Json) := s.printed.reverse.map Json.items

/-- What was printed earlier, and then what the noted applications print. -/
def showing (earlier : List Json) (s : State) : State :=
  { s with printed := (shown s.noted).reverse ++ earlier }

end State

/-- What `p` is applied to during a computation that notes it. -/
def applications {α : Type} (m : Run α) (s : State) : List (List Json) :=
  (Outcome.state (m { s with printed := [] })).noted

/-! ### Notes and prints -/

/-- The computation that prints ends as the one that notes, and has printed what is noted there. -/
def KeepsNotes (earlier : List Json) {α : Type} (m m' : Run α) : Prop :=
  ∀ s : State, m (s.showing earlier) = Outcome.mapState (State.showing earlier) (m' s)

variable {earlier : List Json}

namespace KeepsNotes

variable {α β : Type} {m m' : Run α} {f f' : α → Run β}

protected theorem bind (hm : KeepsNotes earlier m m') (hf : ∀ a, KeepsNotes earlier (f a) (f' a)) :
    KeepsNotes earlier (m >>= f) (m' >>= f') := fun s => bind_mapState (hm s) hf

protected theorem ofExcept (x : Except Error α) :
    KeepsNotes earlier (Run.ofExcept x) (Run.ofExcept x) := by
  intro s
  cases x <;> rfl

protected theorem defineGlobal (name : Text) (value : Value) :
    KeepsNotes earlier (Run.defineGlobal name value) (Run.defineGlobal name value) := by
  intro s
  rw [defineGlobal_eq, defineGlobal_eq]
  change (if s.globals.contains name then _ else _) = _
  split <;> rfl

protected theorem nested (hm : KeepsNotes earlier m m') :
    KeepsNotes earlier (Run.nested m) (Run.nested m') := by
  intro s
  have hcounted := hm (s.atDepth (s.depth + 1))
  rw [nested_eq_mapState, nested_eq_mapState]
  change Outcome.mapState _ (m ((s.atDepth (s.depth + 1)).showing earlier)) = _
  rw [hcounted]
  cases m' (s.atDepth (s.depth + 1)) <;> rfl

end KeepsNotes

def Congruence.notes (earlier : List Json) : Congruence where
  Rel := KeepsNotes earlier
  rel_pure _ _ := rfl
  rel_throw _ _ := rfl
  rel_bind := .bind
  rel_globalValue name s := KeepsNotes.ofExcept (s.globals.lookup name) s
  rel_defineBy name {m m'} hm s := by
    have hdefine := hm.bind fun value =>
      (KeepsNotes.defineGlobal name value).bind fun _ => KeepsNotes.ofExcept (.ok value)
    rw [defineBy_eq, defineBy_eq]
    change (if s.globals.contains name then _ else _) = _
    split
    · rfl
    · exact hdefine s
  rel_readMacros {α f f'} hf hread _ s := by
    rw [read_apply, read_apply, hread (s.showing earlier) s rfl]
    exact hf s s
  rel_newClosure _ _ _ := rfl
  rel_defineMacro name transformer s := by
    rw [defineMacro_eq, defineMacro_eq]
    change (if s.macros.contains name then _ else _) = _
    split <;> rfl

/-! ### Evaluation -/

theorem State.showing_note (s : State) (args : List Json) :
    State.showing earlier { s with printed := .list args :: s.printed } =
      { s with printed := (shown [args]).reverse ++ (s.showing earlier).printed } := by
  simp [showing, noted, Json.items]

theorem keepsNotes_note (args : List Value) :
    KeepsNotes earlier (Primitive.print.run args) (Primitive.note args) := by
  intro s
  have hall := Primitive.printAll_eq args (s.showing earlier)
  change (Primitive.printAll args >>= fun _ => pure (Primitive.passedOn args)) _ =
    Outcome.mapState _ ((Run.ofExcept (args.mapM Value.encode) >>=
      fun _ => pure (Primitive.passedOn args))
        { s with printed := .list (args.map Value.wire) :: s.printed })
  cases hencode : args.mapM Value.encode with
  | ok texts =>
    rw [hencode] at hall
    exact (bind_of_ok hall).trans (congrArg _ (s.showing_note _).symm)
  | error e =>
    rw [hencode] at hall
    exact (bind_of_error hall).trans (congrArg _ (s.showing_note _).symm)

theorem keepsNotes_primitive (p : Primitive) (args : List Value) :
    KeepsNotes earlier (p.run args) (p.runNoting args) := by
  unfold Primitive.runNoting
  split
  · rename_i hprint
    subst hprint
    exact keepsNotes_note args
  · rename_i hprint
    by_cases hglobals : p = .globals
    · subst hglobals
      exact fun _ => rfl
    · exact (Congruence.notes earlier).rel_primitive_of_ne hglobals hprint args

/-- Notes change nothing else. -/
theorem keepsNotes_evaluate (limits : Limits) (v : Value) (env : Environment) :
    KeepsNotes earlier (evaluate limits v env) (evaluateNoting limits v env) := fun s =>
  (Congruence.notes earlier).rel_evalLevels keepsNotes_primitive .nested limits
    (levelsLeft limits s) v env s

theorem engineRel_noter (limits : Limits) :
    (Congruence.notes earlier).EngineRel (engine limits) (noter limits) :=
  ⟨keepsNotes_evaluate limits, keepsNotes_primitive⟩

/-- What has been printed after a computation was printed before it, or by its applications of
`p`. -/
theorem printed_of_keepsNotes {α : Type} {m m' : Run α}
    (h : ∀ earlier, KeepsNotes earlier m m') (s : State) :
    (Outcome.state (m s)).printed = (shown (applications m' s)).reverse ++ s.printed := by
  have hm := h s.printed { s with printed := [] }
  change m s = _ at hm
  rw [hm, Outcome.state_mapState]
  rfl

end JsonLisp
