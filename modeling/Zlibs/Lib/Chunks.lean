import Mathlib

/-! Cutting a list into pieces of a fixed size, the last one possibly shorter. -/
namespace Zlibs.Lib

variable {α : Type} {n fuel : Nat} {x : List α}

def chunksFrom (n : Nat) : Nat → List α → List (List α)
  | 0, x => [x]
  | fuel + 1, x =>
    if x.length ≤ n then [x] else x.take n :: chunksFrom n fuel (x.drop n)

/-- A list that fits in one piece, the empty one included, is one piece. -/
def chunks (n : Nat) (x : List α) : List (List α) := chunksFrom n x.length x

theorem chunksFrom_fuel (hn : 0 < n) (h : x.length ≤ fuel) :
    chunksFrom n fuel x = chunks n x := by
  induction fuel using Nat.strong_induction_on generalizing x with
  | _ fuel ih =>
    cases fuel with
    | zero => simp [chunks, Nat.le_zero.mp h, chunksFrom]
    | succ fuel =>
      unfold chunks
      cases hl : x.length with
      | zero => simp [chunksFrom, hl]
      | succ k =>
        simp only [chunksFrom]
        split
        · rfl
        · rename_i hgt
          have hd : (x.drop n).length ≤ k := by simp only [List.length_drop]; omega
          rw [ih fuel (by omega) (by omega : (x.drop n).length ≤ fuel)]
          by_cases he : k = fuel
          · subst he
            rw [ih k (by omega) hd]
          · rw [ih k (by omega) hd]

theorem chunks_of_le (h : x.length ≤ n) : chunks n x = [x] := by
  cases x with
  | nil => simp [chunks, chunksFrom]
  | cons a rest => simp only [chunks, List.length_cons, chunksFrom] at h ⊢; simp [h]

theorem chunks_of_gt (hn : 0 < n) (h : n < x.length) :
    chunks n x = x.take n :: chunks n (x.drop n) := by
  obtain ⟨k, hk⟩ : ∃ k, x.length = k + 1 := ⟨x.length - 1, by omega⟩
  have hd : (x.drop n).length ≤ k := by simp only [List.length_drop]; omega
  rw [chunks, hk, chunksFrom, if_neg (by omega), chunksFrom_fuel hn hd]

theorem chunks_ne_nil : chunks n x ≠ [] := by
  cases x with
  | nil => simp [chunks, chunksFrom]
  | cons a rest => simp only [chunks, List.length_cons, chunksFrom]; split <;> simp

theorem chunks_flatten (hn : 0 < n) : (chunks n x).flatten = x := by
  induction h : x.length using Nat.strong_induction_on generalizing x with
  | _ k ih =>
    by_cases hl : x.length ≤ n
    · simp [chunks_of_le hl]
    · rw [chunks_of_gt hn (by omega), List.flatten_cons,
        ih (x.drop n).length (by simp only [List.length_drop]; omega) rfl,
        List.take_append_drop]

theorem length_of_mem_chunks (hn : 0 < n) {chunk : List α} (h : chunk ∈ chunks n x) :
    chunk.length ≤ n := by
  induction hk : x.length using Nat.strong_induction_on generalizing x with
  | _ k ih =>
    by_cases hl : x.length ≤ n
    · rw [chunks_of_le hl, List.mem_singleton] at h
      exact h ▸ hl
    · rw [chunks_of_gt hn (by omega), List.mem_cons] at h
      cases h with
      | inl h => simp [h]
      | inr h => exact ih (x.drop n).length (by simp only [List.length_drop]; omega) h rfl

theorem chunks_length (hn : 0 < n) :
    (chunks n x).length = max 1 ((x.length + (n - 1)) / n) := by
  induction h : x.length using Nat.strong_induction_on generalizing x with
  | _ k ih =>
    subst h
    by_cases hl : x.length ≤ n
    · have hle : (x.length + (n - 1)) / n ≤ 1 := by
        rw [Nat.div_le_iff_le_mul_add_pred hn]
        omega
      rw [chunks_of_le hl, List.length_singleton]
      omega
    · have hdrop : (x.drop n).length = x.length - n := List.length_drop ..
      have hmore : x.length + (n - 1) = x.length - n + (n - 1) + n := by omega
      have hone : 1 ≤ (x.length - n + (n - 1)) / n := by
        rw [Nat.le_div_iff_mul_le hn]
        omega
      rw [chunks_of_gt hn (by omega), List.length_cons, ih _ (by omega) rfl, hdrop, hmore,
        Nat.add_div_right _ hn]
      omega

theorem chunks_full {c : List α} {i : Nat} (hn : 0 < n)
    (h : (chunks n x)[i]? = some c) (hi : i + 1 < (chunks n x).length) : c.length = n := by
  induction hx : x.length using Nat.strong_induction_on generalizing x i with
  | _ k ih =>
    subst hx
    by_cases hl : x.length ≤ n
    · rw [chunks_of_le hl, List.length_singleton] at hi
      omega
    · have hgt := chunks_of_gt hn (x := x) (by omega)
      rw [hgt] at h hi
      cases i with
      | zero =>
        cases h
        rw [List.length_take]
        omega
      | succ i =>
        exact ih _ (by rw [List.length_drop]; omega) h (by simpa using hi) rfl

end Zlibs.Lib
