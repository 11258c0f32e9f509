import JsonLisp.Proofs.Value.Parts

/-!
# The wire form by items

The wire form of a list, a map or a scope is that of its items, one after the other, and that of a
captured environment lists its bindings without the borders of its frames.

## Main statements

* `wireItems_eq_map`, `wireEntries_eq_map`, `wireScope_eq_map`.
-/

namespace JsonLisp.Value

theorem wireItems_eq_map (vs : List Value) : wireItems vs = vs.map wire := by
  induction vs with
  | nil => rfl
  | cons v rest ih => rw [wireItems, ih, List.map_cons]

theorem wireEntries_eq_map (entries : List (Text × Value)) :
    wireEntries entries = entries.map fun e => (e.1, e.2.wire) := by
  induction entries with
  | nil => rfl
  | cons e rest ih => rw [wireEntries, ih, List.map_cons]

/-- The pair that stands for a binding on output. -/
def wireBinding (b : Text × Value) : Json := .list [.text b.1, b.2.wire]

theorem wireBindings_eq_map (bindings : List (Text × Value)) :
    wireBindings bindings = bindings.map wireBinding := by
  induction bindings with
  | nil => rfl
  | cons b rest ih => rw [wireBindings, ih, List.map_cons, wireBinding]

theorem wireScope_eq_map (scope : Environment) : wireScope scope = scope.items.map wireBinding := by
  induction scope with
  | nil => rfl
  | cons frame rest ih =>
    rw [wireScope, wireBindings_eq_map, ih, Environment.items, Environment.items,
      List.flatten_cons, List.map_append]

end JsonLisp.Value
