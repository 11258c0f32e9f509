import Mathlib
import JsonLisp.Proofs.Evaluation.Growth
import JsonLisp.Session

/-!
# A fresh global

Local bindings are found before global ones, a name that is not bound ends an evaluation, and a
definition asks for its own name alone. So an evaluation that succeeds and leaves a name unbound has
not noticed that it is: with a global of that name it takes the same steps. Only the primitive that
lists the global names could tell the difference.

## Main definitions

* `NeverApplies`: evaluations without the application of a given primitive.
* `State.PlusGlobal`: the same state with one more global.
* `evaluate_freshGlobal`: a fresh global changes nothing else.
-/

namespace JsonLisp

/-! ### Evaluation without a primitive -/

/-- The primitives, except that each application of `absent` fails. -/
def Primitive.runWithout (absent p : Primitive) (args : List Value) : Run Value :=
  if p = absent then throw (.undefinedBuiltin []) else p.run args

/-- The evaluation does the same if each application of the primitive fails. As no error is caught,
an evaluation that succeeds then never applies it. -/
def NeverApplies (absent : Primitive) (limits : Limits) (v : Value) (env : Environment)
    (s : State) : Prop :=
  evalLevels (Primitive.runWithout absent) limits (levelsLeft limits s) v env s =
    evaluate limits v env s

/-! ### One more global -/

variable {earlier : List (Text × Value)} {g : Text} {w : Value}

section Tables

variable {later : List (Text × Value)} {name : Text}

theorem Table.find?_insert (h : name ≠ g) :
    Table.find? ⟨later ++ (g, w) :: earlier⟩ name = Table.find? ⟨later ++ earlier⟩ name := by
  simp [Table.find?, valueUnder?, List.find?_append, Ne.symm h]

theorem Table.contains_insert (h : name ≠ g) :
    Table.contains ⟨later ++ (g, w) :: earlier⟩ name = Table.contains ⟨later ++ earlier⟩ name := by
  have hne : (g == name) = false := beq_false_of_ne (Ne.symm h)
  simp [Table.contains, hne]

end Tables

/-- The second state is the first with one more global, defined just after the `earlier` ones. -/
inductive State.PlusGlobal (earlier : List (Text × Value)) (g : Text) (w : Value) :
    State → State → Prop
  | intro {s : State} (later : List (Text × Value)) : s.globals = ⟨later ++ earlier⟩ →
    PlusGlobal earlier g w s { s with globals := ⟨later ++ (g, w) :: earlier⟩ }

theorem State.Grows.contains {s t : State} (h : s.Grows t) {name : Text}
    (hname : t.globals.contains name = false) : s.globals.contains name = false := by
  obtain ⟨_, hgrows⟩ := h
  refine Bool.eq_false_iff.2 fun hbound => ?_
  obtain ⟨value, hvalue⟩ := Table.contains_iff_find?.1 hbound
  rw [Table.contains_iff_find?.2 ⟨value, hgrows.globals.find? hvalue⟩] at hname
  cases hname

/-- What the first computation does without binding the name, the second does with the global. -/
def KeepsGlobal (earlier : List (Text × Value)) (g : Text) (w : Value) {α : Type}
    (m m' : Run α) : Prop :=
  OnlyGrows m ∧ ∀ s s' a t, State.PlusGlobal earlier g w s s' → m s = .ok a t →
    t.globals.contains g = false → ∃ t', m' s' = .ok a t' ∧ State.PlusGlobal earlier g w t t'

/-- A name that was defined is not one that is still unbound. -/
theorem ne_of_defineGlobal {name : Text} {value : Value} {s t : State} {a : Unit}
    (h : Run.defineGlobal name value s = .ok a t) (hend : t.globals.contains g = false) :
    name ≠ g := by
  rintro rfl
  rw [defineGlobal_eq] at h
  split at h
  · cases h
  · cases h
    rw [Table.contains_iff_find?.2 ⟨value, Table.find?_add_self _ _ _⟩] at hend
    cases hend

namespace KeepsGlobal

variable {α β : Type} {m m' : Run α} {f f' : α → Run β}

protected theorem pure (a : α) : KeepsGlobal earlier g w (pure a) (pure a) := by
  refine ⟨.pure a, fun s s' b t hs h _ => ?_⟩
  cases h
  exact ⟨s', rfl, hs⟩

protected theorem throw (e : Error) (m' : Run α) : KeepsGlobal earlier g w (throw e) m' :=
  ⟨.throw e, fun _ _ _ _ _ h => by cases h⟩

protected theorem bind (hm : KeepsGlobal earlier g w m m')
    (hf : ∀ a, KeepsGlobal earlier g w (f a) (f' a)) :
    KeepsGlobal earlier g w (m >>= f) (m' >>= f') := by
  refine ⟨hm.1.bind fun a => (hf a).1, fun s s' b t hs h hend => ?_⟩
  obtain ⟨a, u, hfirst, hsecond⟩ := bind_eq_ok h
  have hgrows : u.Grows t := by
    have hu := (hf a).1 u
    rwa [hsecond] at hu
  obtain ⟨u', hfirst', hu⟩ := hm.2 s s' a u hs hfirst (hgrows.contains hend)
  rw [bind_of_ok hfirst']
  exact (hf a).2 u u' b t hu hsecond hend

/-- A name that has a value is not that of the global. -/
protected theorem globalValue (name : Text) :
    KeepsGlobal earlier g w (globalValue name) (globalValue name) := by
  refine ⟨Congruence.growth.rel_globalValue name, fun s s' a t hs h hend => ?_⟩
  change Run.ofExcept (s.globals.lookup name) s = .ok a t at h
  cases hlookup : s.globals.lookup name with
  | error e =>
    rw [hlookup] at h
    cases h
  | ok value =>
    rw [hlookup] at h
    cases h
    rw [Table.lookup_eq_ok] at hlookup
    have hne : name ≠ g := by
      rintro rfl
      rw [Table.contains_iff_find?.2 ⟨a, hlookup⟩] at hend
      cases hend
    obtain ⟨later, hglobals⟩ := hs
    refine ⟨_, ?_, .intro later hglobals⟩
    change Run.ofExcept (Table.lookup ⟨later ++ (g, w) :: earlier⟩ name) _ = _
    rw [hglobals, ← Table.find?_insert (w := w) hne] at hlookup
    rw [Table.lookup_eq_ok.2 hlookup]
    rfl

protected theorem defineGlobal (name : Text) (value : Value) :
    KeepsGlobal earlier g w (Run.defineGlobal name value) (Run.defineGlobal name value) := by
  refine ⟨Congruence.growth.rel_defineGlobal name value, fun s s' a t hs h hend => ?_⟩
  have hne := ne_of_defineGlobal h hend
  rw [defineGlobal_eq] at h ⊢
  split at h
  · cases h
  · rename_i hfresh
    cases h
    obtain ⟨later, hglobals⟩ := hs
    rw [hglobals, ← Table.contains_insert (w := w) hne] at hfresh
    refine ⟨_, if_neg hfresh, .intro ((name, value) :: later) ?_⟩
    rw [hglobals]
    rfl

/-- The name is tested before its value is computed and again when it is bound. -/
protected theorem defineBy (name : Text) {m m' : Run Value} (hm : KeepsGlobal earlier g w m m') :
    KeepsGlobal earlier g w (defineBy name m) (defineBy name m') := by
  have hdefine : KeepsGlobal earlier g w
      (m >>= fun value => Run.defineGlobal name value >>= fun _ => pure value)
      (m' >>= fun value => Run.defineGlobal name value >>= fun _ => pure value) :=
    hm.bind fun value => (KeepsGlobal.defineGlobal name value).bind fun _ => .pure value
  refine ⟨Congruence.growth.rel_defineBy (m := m) name hm.1, fun s s' a t hs h hend => ?_⟩
  rw [defineBy_eq] at h ⊢
  split at h
  · cases h
  · rename_i hfresh
    obtain ⟨t', hsecond, ht⟩ := hdefine.2 s s' a t hs h hend
    have hne : name ≠ g := by
      obtain ⟨value, u, -, h⟩ := bind_eq_ok h
      obtain ⟨_, u', hdefined, h⟩ := bind_eq_ok h
      cases h
      exact ne_of_defineGlobal hdefined hend
    obtain ⟨later, hglobals⟩ := hs
    rw [hglobals, ← Table.contains_insert (w := w) hne] at hfresh
    exact ⟨t', (if_neg hfresh).trans hsecond, ht⟩

protected theorem readMacros {f f' : State → Run α} (hf : ∀ s, KeepsGlobal earlier g w (f s) (f' s))
    (hread : ReadsMacros f') : KeepsGlobal earlier g w (get >>= f) (get >>= f') := by
  refine ⟨.read fun s => (hf s).1, fun s s' a t hs h hend => ?_⟩
  obtain ⟨later, hglobals⟩ := hs
  obtain ⟨t', hsecond, ht⟩ := (hf s).2 s _ a t (.intro later hglobals) h hend
  refine ⟨t', ?_, ht⟩
  rw [read_apply, ← hsecond]
  exact congrFun (hread { s with globals := ⟨later ++ (g, w) :: earlier⟩ } s rfl) _

protected theorem nested {m m' : Run Value} (hm : KeepsGlobal earlier g w m m') :
    KeepsGlobal earlier g w (Run.nested m) (Run.nested m') := by
  refine ⟨onlyGrows_nested hm.1, fun s s' a t hs h hend => ?_⟩
  rw [nested_eq_mapState] at h ⊢
  obtain ⟨u, hu, rfl⟩ := Outcome.mapState_eq_ok h
  obtain ⟨later, hglobals⟩ := hs
  have hcounted : State.PlusGlobal earlier g w (s.atDepth (s.depth + 1)) _ :=
    .intro later hglobals
  obtain ⟨u', hu', hplus⟩ := hm.2 _ _ a u hcounted hu hend
  refine ⟨u'.atDepth (u'.depth - 1), congrArg (Outcome.mapState _) hu', ?_⟩
  obtain ⟨later', hglobals'⟩ := hplus
  exact .intro later' hglobals'

theorem print (document : Json) :
    KeepsGlobal earlier g w (Run.print document) (Run.print document) := by
  refine ⟨Congruence.growth.rel_print document, fun s s' a t hs h _ => ?_⟩
  obtain ⟨later, hglobals⟩ := hs
  rw [print_eq] at h ⊢
  split at h
  · cases h
    exact ⟨_, rfl, .intro later hglobals⟩
  · cases h

end KeepsGlobal

def Congruence.freshGlobal (earlier : List (Text × Value)) (g : Text) (w : Value) : Congruence where
  Rel := KeepsGlobal earlier g w
  rel_pure := .pure
  rel_throw e := .throw e _
  rel_bind := .bind
  rel_globalValue := .globalValue
  rel_defineBy := .defineBy
  rel_readMacros hf _ hread := .readMacros hf hread
  rel_newClosure form scope := by
    refine ⟨Congruence.growth.rel_newClosure form scope, fun s s' a t hs h _ => ?_⟩
    obtain ⟨later, hglobals⟩ := hs
    cases h
    exact ⟨_, rfl, .intro later hglobals⟩
  rel_defineMacro name transformer := by
    refine ⟨Congruence.growth.rel_defineMacro name transformer, fun s s' a t hs h _ => ?_⟩
    obtain ⟨later, hglobals⟩ := hs
    rw [defineMacro_eq] at h ⊢
    split at h
    · cases h
    · rename_i hfresh
      cases h
      exact ⟨_, if_neg hfresh, .intro later hglobals⟩

/-! ### Evaluation -/

theorem keepsGlobal_evalLevels (limits : Limits) (levels : Nat) (v : Value) (env : Environment) :
    KeepsGlobal earlier g w (evalLevels (Primitive.runWithout .globals) limits levels v env)
      (evalLevels Primitive.run limits levels v env) := by
  refine (Congruence.freshGlobal earlier g w).rel_evalLevels (fun p args => ?_) .nested limits
    levels v env
  unfold Primitive.runWithout
  split
  · exact .throw _ _
  · rename_i hp
    by_cases hprint : p = .print
    · subst hprint
      exact (Congruence.freshGlobal earlier g w).rel_runPrint .print args
    · exact (Congruence.freshGlobal earlier g w).rel_primitive_of_ne hp hprint args

/-- An evaluation that succeeds, leaves a name unbound and never lists the globals takes the same
steps if the name has been bound globally before, to any value: it returns the same value and leaves
the same state, with the new binding between those from before and those that it makes. -/
theorem evaluate_freshGlobal {limits : Limits} {v value : Value} {env : Environment} {s t : State}
    {name : Text} (bound : Value) (h : evaluate limits v env s = .ok value t)
    (hend : t.globals.contains name = false) (hglobals : NeverApplies .globals limits v env s) :
    s.globals.contains name = false ∧
      ∃ later, t.globals.entries = later ++ s.globals.entries ∧
        evaluate limits v env { s with globals := s.globals.add name bound } =
          .ok value { t with globals := ⟨later ++ (name, bound) :: s.globals.entries⟩ } := by
  have hgrows : s.Grows t := by
    have hs := onlyGrows_evaluate limits v env s
    rwa [h] at hs
  have hrun : evalLevels (Primitive.runWithout .globals) limits (levelsLeft limits s) v env s =
      .ok value t := hglobals.trans h
  have hplus : State.PlusGlobal s.globals.entries name bound s
      { s with globals := s.globals.add name bound } := .intro [] rfl
  obtain ⟨t', hrun', hplus'⟩ := (keepsGlobal_evalLevels limits _ v env).2 s _ value t hplus hrun hend
  obtain ⟨later, hentries⟩ := hplus'
  exact ⟨hgrows.contains hend, later, congrArg Table.entries hentries, hrun'⟩

/-- `["def", "a", ["p", "x"]]` with a local `x` and the global primitive `p`. -/
theorem evaluate_freshGlobal_printedDefinition :
    let v : Value := .list [.word "def", .word "a", .list [.word "p", .word "x"]]
    let env : Environment := [[([120], .bool true)]]
    let s := Session.initial
    let t := Outcome.state (evaluate ⟨1, 9⟩ v env s)
    evaluate ⟨1, 9⟩ v env s = .ok (.bool true) t ∧ t.globals.contains [98] = false ∧
      NeverApplies .globals ⟨1, 9⟩ v env s ∧
      ∃ later, t.globals.entries = later ++ s.globals.entries ∧
        evaluate ⟨1, 9⟩ v env { s with globals := s.globals.add [98] .null } =
          .ok (.bool true) { t with globals := ⟨later ++ ([98], .null) :: s.globals.entries⟩ } := by
  have hnever : NeverApplies .globals ⟨1, 9⟩
      (.list [.word "def", .word "a", .list [.word "p", .word "x"]]) [[([120], .bool true)]]
      Session.initial := by
    unfold NeverApplies
    cbv
  intro v env s t
  have h : evaluate ⟨1, 9⟩ v env s = .ok (.bool true) t := by cbv
  have hend : t.globals.contains [98] = false := by decide +kernel
  exact ⟨h, hend, hnever, (evaluate_freshGlobal .null h hend hnever).2⟩

end JsonLisp
