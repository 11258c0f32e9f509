import JsonLisp.Proofs.Evaluation.Depth
import JsonLisp.Proofs.Table

/-!
# Definitions

A definition evaluates its second part and binds the value globally; a name that is bound already
is refused before that.

## Main statements

* `evaluate_definition`: what is left to do when the guard lets a definition start.
* `evaluate_definition_ok`: after a definition its name has the value that was returned.
* `evaluate_definition_again`: a second definition changes nothing.
-/

namespace JsonLisp

/-- The form that defines a global name. -/
def Value.definition (name : Text) (form : Value) : Value := .list [word "def", .text name, form]

theorem evaluate_text (limits : Limits) (name : Text) (env : Environment) (s : State) :
    evaluate limits (.text name) env s = lookup name env s := by
  unfold evaluate
  cases levelsLeft limits s <;> rfl

theorem lookup_global {s : State} {name : Text} {value : Value} {env : Environment}
    (hlocal : env.find? name = none) (hglobal : s.globals.find? name = some value) :
    lookup name env s = .ok value s := by
  unfold lookup
  rw [hlocal]
  change Run.ofExcept (s.globals.lookup name) s = _
  rw [Table.lookup_eq_ok.2 hglobal]
  rfl

theorem evaluate_definition (limits : Limits) (name : Text) (form : Value) (env : Environment)
    (s : State) :
    evaluate limits (.definition name form) env s =
      if limits.evaluation ≤ s.depth then .error (.nestedTooDeep limits.evaluation) s
      else Run.nested (SpecialForm.runDefine (evaluate limits) env [.text name, form]) s :=
  evaluate_form limits (.word "def") [.text name, form] env s

theorem runDefine_name (ev : Eval) (env : Environment) (name : Text) (form : Value)
    (s : State) :
    SpecialForm.runDefine ev env [.text name, form] s =
      if s.globals.contains name then .error (.alreadyGlobal name) s
      else (ev form env >>= fun value =>
        Run.defineGlobal name value >>= fun _ => pure value) s :=
  defineBy_eq name (ev form env) s

theorem runMacroDefinition_name (ev : Eval) (env : Environment) (name : Text)
    (params body : List Value) (s : State) :
    SpecialForm.runMacroDefinition ev env (.text name :: .list params :: body) s =
      if s.macros.contains name then .error (.alreadyMacro name) s
      else (ev (.list (.text SpecialForm.fnName :: .list params :: body)) env >>= fun transformer =>
        Run.defineMacro name transformer >>= fun _ => pure (.text name)) s := by
  change (if s.macros.contains name then _ else _ : Run Value) s = _
  split <;> rfl

/-- After a definition the name has the value that was returned. -/
theorem runDefine_ok {ev : Eval} {env : Environment} {name : Text} {form value : Value}
    {s t : State} (h : SpecialForm.runDefine ev env [.text name, form] s = .ok value t) :
    t.globals.find? name = some value := by
  rw [runDefine_name] at h
  split at h
  · cases h
  · obtain ⟨result, u, -, h⟩ := bind_eq_ok h
    obtain ⟨_, w, hdefined, h⟩ := bind_eq_ok h
    cases h
    rw [defineGlobal_eq] at hdefined
    split at hdefined
    · cases hdefined
    · cases hdefined
      exact Table.find?_add_self _ _ _

theorem evaluate_definition_ok {limits : Limits} {env : Environment} {name : Text}
    {form value : Value} {s t : State}
    (h : evaluate limits (.definition name form) env s = .ok value t) :
    t.globals.find? name = some value := by
  rw [evaluate_definition] at h
  split at h
  · cases h
  · rw [nested_eq_mapState] at h
    obtain ⟨u, hrun, rfl⟩ := Outcome.mapState_eq_ok h
    have hfound : u.globals.find? name = some value := runDefine_ok hrun
    exact hfound

/-- A second definition is refused before its value is evaluated. -/
theorem evaluate_definition_again {limits : Limits} {s : State} {name : Text}
    (hbound : s.globals.contains name = true) (hroom : s.depth < limits.evaluation)
    (form : Value) (env : Environment) :
    evaluate limits (.definition name form) env s = .error (.alreadyGlobal name) s := by
  rw [evaluate_definition, if_neg (by omega), nested_eq_mapState, runDefine_name]
  change Outcome.mapState _ (if s.globals.contains name = true then _ else _) = _
  rw [if_pos hbound]
  rfl

end JsonLisp
