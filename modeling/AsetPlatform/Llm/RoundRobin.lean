import AsetPlatform.Llm.TokenBudget
import Mathlib.Data.List.Rotate

/-!
# Rotation of a round-robin pool

`outputs` are the answers of successive calls of `ordered_models`. The answer of a call is the pool
rotated by the number of calls before it (`orderedModels_fst`), so that the positions at which as many
consecutive answers start as the pool has models are a rotation of all of them (`rotation_fair`).
-/

set_option autoImplicit false

namespace AsetPlatform.Llm.TokenBudget.RoundRobinPool

/-- The answers of successive calls. -/
def outputs : RoundRobinPool → Nat → List (List String)
  | _, 0 => []
  | pool, calls + 1 => pool.orderedModels.1 :: outputs pool.orderedModels.2 calls

variable (pool : RoundRobinPool)

theorem orderedModels_fst : pool.orderedModels.1 = pool.models.rotate pool.counter := by
  by_cases hEmpty : pool.models.length = 0
  · rw [orderedModels, List.length_eq_zero_iff.mp hEmpty, List.rotate_nil]
    rfl
  · have hStep : pool.orderedModels =
        (pool.models.rotate (pool.counter % pool.models.length),
          { pool with counter := pool.counter + 1 }) := if_neg hEmpty
    rw [hStep, List.rotate_mod]

theorem orderedModels_snd_models : pool.orderedModels.2.models = pool.models := by
  rw [orderedModels]
  split <;> rfl

theorem rotate_orderedModels_snd (k : Nat) :
    pool.orderedModels.2.models.rotate (pool.orderedModels.2.counter + k) =
      pool.models.rotate (pool.counter + (k + 1)) := by
  by_cases hEmpty : pool.models.length = 0
  · rw [orderedModels_snd_models, List.length_eq_zero_iff.mp hEmpty, List.rotate_nil, List.rotate_nil]
  · have hStep : pool.orderedModels.2 = { pool with counter := pool.counter + 1 } :=
      congrArg Prod.snd (if_neg hEmpty)
    rw [hStep, Nat.add_assoc, Nat.add_comm 1 k]

theorem outputs_eq (calls : Nat) :
    pool.outputs calls =
      (List.range calls).map fun k => pool.models.rotate (pool.counter + k) := by
  induction calls generalizing pool with
  | zero => rfl
  | succ calls ih =>
      rw [outputs, ih, orderedModels_fst, List.range_succ_eq_map, List.map_cons, List.map_map]
      congr 1
      apply List.map_congr_left
      intro k _
      exact rotate_orderedModels_snd pool k

theorem map_mod_eq_rotate (n start : Nat) :
    ((List.range n).map fun k => (start + k) % n) = (List.range n).rotate start := by
  apply List.ext_getElem
  · rw [List.length_map, List.length_rotate]
  · intro k hk hk'
    rw [List.getElem_map, List.getElem_range, List.getElem_rotate, List.getElem_range,
      List.length_range, Nat.add_comm]

/-- Each answer is a rotation of the pool, and as many consecutive answers as the pool has models
start at each position once. -/
theorem rotation_fair (calls : Nat) :
    (∀ answer ∈ pool.outputs calls,
        (∃ k, answer = pool.models.rotate k) ∧ answer.Perm pool.models) ∧
      ∀ first, first + pool.models.length ≤ calls →
        ∃ starts : List Nat, starts.Perm (List.range pool.models.length) ∧
          ((pool.outputs calls).drop first).take pool.models.length =
            starts.map pool.models.rotate ∧
          (((pool.outputs calls).drop first).take pool.models.length).map List.head? =
            starts.map fun position => pool.models[position]? := by
  rw [outputs_eq]
  constructor
  · intro answer hAnswer
    obtain ⟨k, -, rfl⟩ := List.mem_map.mp hAnswer
    exact ⟨⟨_, rfl⟩, List.rotate_perm _ _⟩
  · intro first hLast
    let starts := (List.range pool.models.length).map fun k =>
      (pool.counter + first + k) % pool.models.length
    have hWindow : (((List.range calls).map fun k => pool.models.rotate (pool.counter + k)).drop
        first).take pool.models.length = starts.map pool.models.rotate := by
      apply List.ext_getElem
      · simp only [starts, List.length_take, List.length_drop, List.length_map, List.length_range]
        omega
      · intro k hk hk'
        simp only [starts, List.getElem_take, List.getElem_drop, List.getElem_map,
          List.getElem_range, List.rotate_mod, Nat.add_assoc]
    refine ⟨starts, ?_, hWindow, ?_⟩
    · show ((List.range _).map _).Perm _
      rw [map_mod_eq_rotate]
      exact List.rotate_perm _ _
    · rw [hWindow, List.map_map]
      apply List.map_congr_left
      intro position hPosition
      obtain ⟨k, hk, rfl⟩ := List.mem_map.mp hPosition
      have hPos : 0 < pool.models.length := Nat.zero_lt_of_lt (List.mem_range.mp hk)
      exact List.head?_rotate (Nat.mod_lt _ hPos)

end AsetPlatform.Llm.TokenBudget.RoundRobinPool
