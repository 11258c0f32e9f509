import JsonLisp.Proofs.Session.Bootstrap
import JsonLisp.Proofs.Session.ParallelBinding
import JsonLisp.Proofs.Simulation.Calls

/-!
# Where functions are made

Functions are made by `fn` forms alone. A macro definition evaluates one for its transformer, a
`let` for the call that it is expanded to, and a `defun` for the definition that it is expanded to:
in each of them the evaluation of the `fn` form begins like that of any other form.

## Main definitions

* `Session.Furnished`: what the tables have from the beginning.
* `Session.MakesFunction`: forms of these kinds, with the `fn` form of each.

## Main statements

* `Session.MakesFunction.begins`: the evaluation of the `fn` form begins.
-/

namespace JsonLisp

open Primitive (letName bindingCall)
open Recursion (Begins Call)
open Text (ofString)
open Value (word)

variable {limits : Limits} {s t u : State} {c : Call} {env : Environment} {stack : List Call}
  {returned : List Value}

/-! ### Calls in forms -/

namespace Recursion

/-- In a form that is not too deep. -/
theorem begins_form (hroom : s.depth < limits.evaluation) {head : Value} {args : List Value}
    (h : Begins limits c u (evalForm limits head args env) (s.atDepth (s.depth + 1)) stack
      returned) :
    Begins limits c u (evaluate limits (.list (head :: args)) env) s stack returned := by
  rw [evaluate]
  exact .read (.check (by omega) _ (.nested h))

theorem begins_special {name : Text} {form : SpecialForm} {args : List Value}
    (hform : SpecialForm.ofName? name = some form) (hroom : s.depth < limits.evaluation)
    (h : Begins limits c u (evalSpecialForm form env args) (s.atDepth (s.depth + 1)) stack
      returned) :
    Begins limits c u (evaluate limits (.list (.text name :: args)) env) s stack returned := by
  refine begins_form hroom ?_
  rw [evalForm, hform]
  exact h

/-- In the expansion of a macro call. -/
theorem begins_expansion {name : Text} {args : List Value} {form : Value}
    (hspecial : SpecialForm.ofName? name = none) (hmacros : s.macros.contains name = true)
    (hexpand : expandCall (engine limits) limits.expansion name args s = .ok form t)
    (h : Begins limits c u (evaluate limits form env) t stack returned) :
    ∃ stack returned,
      Begins limits c u (evalForm limits (.text name) args env) s stack returned := by
  have hend := (follows_expand (followsEngine_session limits s.depth) name args).ends_iff _
    |>.2 hexpand.symm
  obtain ⟨earlier, hcall⟩ := Begins.bind_right (f := fun form => evaluateLater form env) hend
    (.inside h)
  refine ⟨.evaluate form env :: stack, earlier ++ returned, ?_⟩
  rw [evalForm, hspecial]
  refine .read ?_
  rw [if_pos hmacros]
  exact hcall

end Recursion

/-! ### The tables of a session -/

namespace Session

/-- What the tables have from the beginning: `let`, and the primitives that the template of `defun`
calls. -/
structure Furnished (s : State) : Prop where
  parallelBinding : s.macros.find? letName = some (.builtin letName)
  list : s.globals.find? (ofString "list") = some (.builtin (ofString "list"))
  append : s.globals.find? (ofString "append") = some (.builtin (ofString "append"))

theorem furnished_initial : Furnished initial := ⟨rfl, rfl, rfl⟩

theorem Furnished.grows (h : Furnished s) (hgrows : s.Grows t) : Furnished t := by
  obtain ⟨_, hgrows⟩ := hgrows
  exact ⟨hgrows.macros.find? h.parallelBinding, hgrows.globals.find? h.list,
    hgrows.globals.find? h.append⟩

/-! ### Functions on the way -/

/-- Forms that evaluate the `fn` form of the parameters and the body on their way, where levels
enough are left: a macro definition under a free name, a `let`, and, once there is a `defun`, a call
of it with a free name while no macro hides what its template calls. -/
inductive MakesFunction (limits : Limits) (s : State) : Value → Value → List Value → Prop
  | macroDefinition {name : Text} (hfree : s.macros.contains name = false)
      (hroom : s.depth + 2 ≤ limits.evaluation) (params body : List Value) :
    MakesFunction limits s (.list (word "defmacro" :: .text name :: .list params :: body))
      (.list params) body
  | parallelBinding (hroom : s.depth + 3 ≤ limits.evaluation) (pairs : List (Value × Value))
      (body : List Value) :
    MakesFunction limits s (.letForm pairs body) (.list (pairs.map Prod.fst)) body
  | defun {name : Text} (hdefun : Bootstrapped s) (hfree : s.globals.contains name = false)
      (hlist : s.macros.contains (ofString "list") = false)
      (happend : s.macros.contains (ofString "append") = false)
      (hroom : s.depth + 6 ≤ limits.evaluation) (params : Value) (body : List Value) :
    MakesFunction limits s (defunForm (.text name) params body) params body

/-- The evaluation of the `fn` form begins in the same state, only deeper, and with a level left. -/
theorem MakesFunction.begins {form params : Value} {body : List Value} (hs : Furnished s)
    (h : MakesFunction limits s form params body) (env : Environment) :
    ∃ (d : Nat) (stack : List Call) (returned : List Value), d < limits.evaluation ∧
      Begins limits (.evaluate (.list (word "fn" :: params :: body)) env) (s.atDepth d)
        (Recursion.evaluate limits form env) s stack returned := by
  cases h with
  | @macroDefinition name hfree hroom params body =>
    have hspecial : SpecialForm.ofName? (ofString "defmacro") = some .macroDefinition := rfl
    refine ⟨s.depth + 1, [], [], by omega, Recursion.begins_special hspecial (by omega) ?_⟩
    exact .read (.check (ne_true_of_eq_false hfree) _ (.here _))
  | parallelBinding hroom pairs body =>
    have hlet : (s.atDepth (s.depth + 1)).macros.find? letName = some (.builtin letName) :=
      hs.parallelBinding
    have hmacros : (s.atDepth (s.depth + 1)).macros.contains letName = true :=
      Table.contains_iff_find?.2 ⟨_, hlet⟩
    have hcall : Begins limits (.evaluate (.list (word "fn" :: .list (pairs.map Prod.fst) :: body))
        env) (s.atDepth (s.depth + 2)) (Recursion.evaluate limits (bindingCall pairs body) env)
        (s.atDepth (s.depth + 1)) [] [] :=
      Recursion.begins_form (by rw [State.depth_atDepth]; omega) (.here _)
    obtain ⟨stack, returned, hform⟩ := Recursion.begins_expansion rfl hmacros
      (expandCall_let hlet limits.expansion) hcall
    exact ⟨s.depth + 2, stack, returned, by omega, Recursion.begins_form (by omega) hform⟩
  | @defun name hdefun hfree hlist happend hroom params body =>
    have hintact : DefunIntact (s.atDepth (s.depth + 1)) :=
      ⟨hdefun.defun, hs.list, hs.append, hlist, happend⟩
    have hlevels : TakesLevels limits _ 5 _ (defunExpansion (.text name) params body) :=
      hintact.takes_expandCall limits.expansion (.text name) params body
    have hexpand := hlevels.ok (d := s.depth + 1) (by omega)
    let definition : Value := .definition name (.list (word "fn" :: params :: body))
    have hdefinition : Begins limits (.evaluate (.list (word "fn" :: params :: body)) env)
        (s.atDepth (s.depth + 3)) (Recursion.evaluate limits definition env)
        (s.atDepth (s.depth + 2)) [] [] := by
      have hspecial : SpecialForm.ofName? (ofString "def") = some .define := rfl
      refine Recursion.begins_special hspecial (by rw [State.depth_atDepth]; omega) ?_
      exact .read (.check (ne_true_of_eq_false hfree) _ (.here _))
    have hexpansion : Begins limits (.evaluate (.list (word "fn" :: params :: body)) env)
        (s.atDepth (s.depth + 3))
        (Recursion.evaluate limits (defunExpansion (.text name) params body) env)
        (s.atDepth (s.depth + 1)) [.evaluate definition env] [] := by
      have hspecial : SpecialForm.ofName? (ofString "do") = some .sequence := rfl
      refine Recursion.begins_special hspecial (by rw [State.depth_atDepth]; omega) ?_
      exact .inside hdefinition
    obtain ⟨stack, returned, hform⟩ :=
      Recursion.begins_expansion rfl hintact.contains_defun hexpand hexpansion
    exact ⟨s.depth + 3, stack, returned, by omega, Recursion.begins_form (by omega) hform⟩

end Session

end JsonLisp
