import Mathlib.Data.List.Perm.Subperm
import Mathlib.Data.List.Induction

/-!
# Order-preserving merges

`Interleaving first second merged` says that `merged` consists of the entries of the two lists,
each in its own order. It grows at the end, as logs do. A list is a merge of the entries that have a
property and those that lack it (`interleaving_filter`), and, up to order, of the entries of each
key (`perm_flatMap_filter`). When one of several parties changes, what they have together changes,
up to order, by what that party has (`perm_flatMap_set`, and `perm_flatMap_of_ne` for parties that
are all different). A log that never has an entry its sequence lacks is in the order of the sequence
as long as it is at most one entry behind (`Follows`).
-/

set_option autoImplicit false
set_option relaxedAutoImplicit false

namespace NovaIde.Foundation

variable {α : Type*}

/-- The merges of two lists that keep the order of each. -/
inductive Interleaving : List α → List α → List α → Prop
  | nil : Interleaving [] [] []
  | left {first second merged : List α} (entry : α) (hmerged : Interleaving first second merged) :
      Interleaving (first ++ [entry]) second (merged ++ [entry])
  | right {first second merged : List α} (entry : α) (hmerged : Interleaving first second merged) :
      Interleaving first (second ++ [entry]) (merged ++ [entry])

variable {first second merged : List α}

/-- A merge consists of the entries of the two lists, no more and no fewer. -/
theorem Interleaving.perm (hmerged : Interleaving first second merged) :
    merged.Perm (first ++ second) := by
  induction hmerged with
  | nil => exact List.Perm.nil
  | @left first second merged entry _ ih =>
    rw [List.append_assoc, List.singleton_append]
    exact (List.perm_append_singleton entry merged).trans
      ((ih.cons entry).trans List.perm_middle.symm)
  | right entry _ ih =>
    rw [← List.append_assoc]
    exact ih.append_right [entry]

/-- There is one merge with the empty list. -/
theorem Interleaving.eq_left (hmerged : Interleaving first [] merged) : merged = first := by
  generalize hempty : ([] : List α) = second at hmerged
  induction hmerged with
  | nil => rfl
  | left entry _ ih => rw [ih hempty]
  | right entry _ _ => simp at hempty

/-- Merging commutes with renaming the entries. -/
theorem Interleaving.map {β : Type*} (f : α → β) (hmerged : Interleaving first second merged) :
    Interleaving (first.map f) (second.map f) (merged.map f) := by
  induction hmerged with
  | nil => exact .nil
  | left entry _ ih =>
    simp only [List.map_append, List.map_singleton]
    exact ih.left (f entry)
  | right entry _ ih =>
    simp only [List.map_append, List.map_singleton]
    exact ih.right (f entry)

/-- A list is a merge of the entries that have a property and those that lack it. -/
theorem interleaving_filter (property : α → Bool) (list : List α) :
    Interleaving (list.filter property) (list.filter fun entry ↦ !property entry) list := by
  induction list using List.reverseRecOn with
  | nil => exact .nil
  | append_singleton list entry ih =>
    rw [List.filter_append, List.filter_append]
    by_cases hentry : property entry
    · simpa [hentry] using ih.left entry
    · simpa [hentry] using ih.right entry

/-- The entries with a key in a list without repetitions are those of each key. -/
theorem perm_flatMap_filter {Key : Type*} [DecidableEq Key] (key : α → Key) (list : List α) :
    ∀ {keys : List Key}, keys.Nodup →
      (list.filter fun entry ↦ key entry ∈ keys).Perm
        (keys.flatMap fun wanted ↦ list.filter fun entry ↦ key entry = wanted) := by
  intro keys
  induction keys with
  | nil => simp
  | cons wanted keys ih =>
    intro hnodup
    rw [List.nodup_cons] at hnodup
    have hsplit := (interleaving_filter (fun entry ↦ key entry = wanted)
      (list.filter fun entry ↦ key entry ∈ wanted :: keys)).perm
    have hwanted : (list.filter fun entry ↦ key entry ∈ wanted :: keys).filter
        (fun entry ↦ key entry = wanted) = list.filter fun entry ↦ key entry = wanted := by
      rw [List.filter_filter]
      refine List.filter_congr fun entry _ ↦ ?_
      by_cases hkey : key entry = wanted <;> simp [hkey]
    have hothers : (list.filter fun entry ↦ key entry ∈ wanted :: keys).filter
        (fun entry ↦ !decide (key entry = wanted)) =
          list.filter fun entry ↦ key entry ∈ keys := by
      rw [List.filter_filter]
      refine List.filter_congr fun entry _ ↦ ?_
      by_cases hkey : key entry = wanted
      · simp [hkey, hnodup.1]
      · simp [hkey]
    rw [hwanted, hothers] at hsplit
    exact hsplit.trans ((ih hnodup.2).append_left _)

/-- One of several parties changes. -/
theorem perm_flatMap_set {Party : Type*} (has : Party → List α) {parties : List Party}
    {party : Party} (changed : Party) :
    ∀ {index : ℕ}, parties[index]? = some party →
      ((parties.set index changed).flatMap has ++ has party).Perm
        (parties.flatMap has ++ has changed) := by
  classical
  induction parties with
  | nil =>
    intro index hparty
    simp at hparty
  | cons first parties ih =>
    intro index hparty
    rw [List.perm_iff_count]
    intro entry
    cases index with
    | zero =>
      obtain rfl : first = party := by simpa using hparty
      simp only [List.set_cons_zero, List.flatMap_cons, List.count_append]
      omega
    | succ index =>
      have hrest := (ih (by simpa using hparty) : _).count_eq entry
      simp only [List.set_cons_succ, List.flatMap_cons, List.count_append] at hrest ⊢
      omega

/-- One of several different parties changes, and what the others have stays as it is. -/
theorem perm_flatMap_of_ne {Party : Type*} (has changed : Party → List α) {parties : List Party}
    {party : Party} (hnodup : parties.Nodup) (hparty : party ∈ parties)
    (hothers : ∀ other ∈ parties, other ≠ party → changed other = has other) :
    (parties.flatMap changed ++ has party).Perm (parties.flatMap has ++ changed party) := by
  classical
  have hsplit := List.perm_cons_erase hparty
  have hsame : (parties.erase party).flatMap changed = (parties.erase party).flatMap has := by
    refine List.flatMap_congr fun other hother ↦ ?_
    obtain ⟨hne, hmem⟩ := (List.Nodup.mem_erase_iff hnodup).mp hother
    exact hothers other hmem hne
  have hafter := hsplit.flatMap_right changed
  have hbefore := hsplit.flatMap_right has
  rw [List.flatMap_cons, hsame] at hafter
  rw [List.flatMap_cons] at hbefore
  rw [List.perm_iff_count]
  intro entry
  have hafter := hafter.count_eq entry
  have hbefore := hbefore.count_eq entry
  simp only [List.count_append] at hafter hbefore ⊢
  omega

/-! ### One entry behind -/

/-- A log of a sequence that lacks at most its last entry. -/
def Follows (log sequence : List α) : Prop := log = sequence ∨ ∃ last, sequence = log ++ [last]

/-- A log with the same entries lacks none. -/
theorem Follows.eq_of_perm {log sequence : List α} (hfollows : Follows log sequence)
    (hperm : log.Perm sequence) : log = sequence := by
  rcases hfollows with heq | ⟨last, rfl⟩
  · exact heq
  · have hlength := hperm.length_eq
    simp at hlength

/-- A log that grows, and still has no entry that the sequence lacks, has caught up with it. -/
theorem Follows.eq_of_subperm {log sequence : List α} {entry : α} (hfollows : Follows log sequence)
    (hsub : (log ++ [entry]).Subperm sequence) : log ++ [entry] = sequence := by
  rcases hfollows with rfl | ⟨last, rfl⟩
  · have hlength := hsub.length_le
    rw [List.length_append, List.length_singleton] at hlength
    omega
  · have hperm := hsub.perm_of_length_le (by simp)
    rw [List.perm_append_left_iff, List.singleton_perm_singleton] at hperm
    rw [hperm]

end NovaIde.Foundation
