import JsonLisp.Proofs.Evaluation.Congruence
import JsonLisp.Proofs.Table

/-!
# What evaluation only adds to

Whatever an evaluation does, and wherever it fails, it only adds to the journal, to the two tables
and to what has been printed, and the journal tells what it has added to the tables.

## Main definitions

* `State.Grows`: one state has grown from another.
* `OnlyGrows`: a computation after which the state has grown.
* `onlyGrows_evaluate`: so it is with every evaluation.
-/

namespace JsonLisp

/-- The name of a global definition. -/
def Event.global? : Event → Option Text
  | .definedGlobal name => some name
  | _ => none

/-- The name of a macro definition. -/
def Event.macro? : Event → Option Text
  | .definedMacro name => some name
  | _ => none

namespace State

/-- `t` has grown from `s` by these events, newest first. -/
structure GrowsBy (events : List Event) (s t : State) : Prop where
  journal : t.journal = events ++ s.journal
  globals : Table.Grows (events.filterMap Event.global?) s.globals t.globals
  macros : Table.Grows (events.filterMap Event.macro?) s.macros t.macros
  printed : s.printed <:+ t.printed

/-- `t` has grown from `s`. -/
def Grows (s t : State) : Prop := ∃ events, GrowsBy events s t

theorem Grows.refl (s : State) : Grows s s := ⟨[], rfl, .refl _, .refl _, List.suffix_rfl⟩

theorem Grows.trans {s t u : State} (h : Grows s t) (g : Grows t u) : Grows s u := by
  obtain ⟨early, hj, hg, hm, hp⟩ := h
  obtain ⟨late, gj, gg, gm, gp⟩ := g
  refine ⟨late ++ early, ?_, ?_, ?_, hp.trans gp⟩
  · rw [gj, hj, List.append_assoc]
  · rw [List.filterMap_append]
    exact hg.trans gg
  · rw [List.filterMap_append]
    exact hm.trans gm

theorem Grows.atDepth {s t : State} (h : Grows s t) (c d : Nat) :
    Grows (s.atDepth c) (t.atDepth d) := by
  obtain ⟨events, hj, hg, hm, hp⟩ := h
  exact ⟨events, hj, hg, hm, hp⟩

theorem grows_atDepth (s : State) (d : Nat) : Grows s (s.atDepth d) :=
  (Grows.refl s).atDepth s.depth d

theorem grows_print (s : State) (document : Json) :
    Grows s { s with printed := document :: s.printed } :=
  ⟨[], rfl, .refl _, .refl _, List.suffix_cons _ _⟩

theorem grows_newIdentity (s : State) (n : Nat) : Grows s { s with nextIdentity := n } :=
  ⟨[], rfl, .refl _, .refl _, List.suffix_rfl⟩

theorem grows_defineGlobal {s : State} {name : Text} (value : Value)
    (h : s.globals.contains name = false) :
    Grows s { s with
      globals := s.globals.add name value
      journal := .definedGlobal name :: s.journal } :=
  ⟨[.definedGlobal name], rfl, .define value (.refl _) h, .refl _, List.suffix_rfl⟩

theorem grows_defineMacro {s : State} {name : Text} (transformer : Value)
    (h : s.macros.contains name = false) :
    Grows s { s with
      macros := s.macros.add name transformer
      journal := .definedMacro name :: s.journal } :=
  ⟨[.definedMacro name], rfl, .refl _, .define transformer (.refl _) h, List.suffix_rfl⟩

/-- An event that defines nothing. -/
theorem grows_record (s : State) {event : Event} (hglobals : event.global? = none)
    (hmacros : event.macro? = none) : Grows s { s with journal := event :: s.journal } := by
  refine ⟨[event], rfl, ?_, ?_, List.suffix_rfl⟩
  · simpa [hglobals] using Table.Grows.refl s.globals
  · simpa [hmacros] using Table.Grows.refl s.macros

theorem Grows.globals_prefix {s t : State} (h : Grows s t) :
    s.globals.definitions <+: t.globals.definitions := by
  obtain ⟨_, h⟩ := h
  exact h.globals.definitions_prefix

theorem Grows.macros_prefix {s t : State} (h : Grows s t) :
    s.macros.definitions <+: t.macros.definitions := by
  obtain ⟨_, h⟩ := h
  exact h.macros.definitions_prefix

theorem Grows.globals_eq {s t : State} (h : Grows s t) (hnames : t.globals.names = s.globals.names) :
    t.globals = s.globals := by
  obtain ⟨_, h⟩ := h
  exact h.globals.eq_of_names hnames

theorem Grows.macros_eq {s t : State} (h : Grows s t) (hnames : t.macros.names = s.macros.names) :
    t.macros = s.macros := by
  obtain ⟨_, h⟩ := h
  exact h.macros.eq_of_names hnames

theorem Grows.printed_suffix {s t : State} (h : Grows s t) : s.printed <:+ t.printed := by
  obtain ⟨_, h⟩ := h
  exact h.printed

/-- What was printed stays at the front of the output. -/
theorem Grows.output_prefix {s t : State} (h : Grows s t) : s.output <+: t.output := by
  obtain ⟨later, hprinted⟩ := h.printed_suffix
  simp [output, ← hprinted]

end State

/-! ### Computations -/

/-- The state has grown after the computation, whatever the outcome. -/
def OnlyGrows {ε α : Type} (m : EStateM ε State α) : Prop :=
  ∀ s : State, s.Grows (Outcome.state (m s))

namespace OnlyGrows

variable {ε α β : Type} {m : EStateM ε State α} {f : α → EStateM ε State β}

theorem pure (a : α) : OnlyGrows (pure a : EStateM ε State α) := fun s => State.Grows.refl s

theorem throw (e : ε) : OnlyGrows (throw e : EStateM ε State α) := fun s => State.Grows.refl s

/-- After the first of two computations the state still grows. -/
theorem grows_bind (hf : ∀ a, OnlyGrows (f a)) (s : State) :
    State.Grows (Outcome.state (m s)) (Outcome.state ((m >>= f) s)) :=
  state_bind (State.Grows.refl _) fun a t _ ht => ht.trans (hf a t)

theorem bind (hm : OnlyGrows m) (hf : ∀ a, OnlyGrows (f a)) : OnlyGrows (m >>= f) :=
  fun s => (hm s).trans (grows_bind hf s)

theorem read {f : State → EStateM ε State α} (hf : ∀ s, OnlyGrows (f s)) :
    OnlyGrows (get >>= f) := fun s => hf s s

end OnlyGrows

theorem onlyGrows_nested {α : Type} {m : Run α} (h : OnlyGrows m) : OnlyGrows (Run.nested m) := by
  intro s
  rw [nested_eq_mapState, Outcome.state_mapState]
  exact (h (s.atDepth (s.depth + 1))).atDepth s.depth _

def Congruence.growth : StateCongruence where
  Rel _ m' := OnlyGrows m'
  rel_pure := OnlyGrows.pure
  rel_throw := OnlyGrows.throw
  rel_bind := OnlyGrows.bind
  rel_read hf _ _ := OnlyGrows.read hf
  rel_print document s := by
    rw [print_eq]
    split
    · exact State.grows_print s document
    · exact State.Grows.refl s
  rel_newClosure _ _ s := State.grows_newIdentity s _
  rel_defineGlobal name value s := by
    rw [defineGlobal_eq]
    split
    · exact State.Grows.refl s
    · rename_i hfresh
      exact State.grows_defineGlobal value (by simpa using hfresh)
  rel_defineMacro name transformer s := by
    rw [defineMacro_eq]
    split
    · exact State.Grows.refl s
    · rename_i hfresh
      exact State.grows_defineMacro transformer (by simpa using hfresh)

theorem onlyGrows_evalLevels (limits : Limits) (levels : Nat) (v : Value) (env : Environment) :
    OnlyGrows (evalLevels Primitive.run limits levels v env) :=
  Congruence.growth.rel_evalLevels Congruence.growth.rel_primitive onlyGrows_nested limits levels
    v env

theorem growthRel_evalLevels (limits : Limits) (levels : Nat) :
    Congruence.growth.EngineRel ⟨evalLevels Primitive.run limits levels, Primitive.run⟩
      ⟨evalLevels Primitive.run limits levels, Primitive.run⟩ :=
  ⟨onlyGrows_evalLevels limits levels, Congruence.growth.rel_primitive⟩

theorem onlyGrows_evaluate (limits : Limits) (v : Value) (env : Environment) :
    OnlyGrows (evaluate limits v env) := fun s =>
  onlyGrows_evalLevels limits (levelsLeft limits s) v env s

end JsonLisp
