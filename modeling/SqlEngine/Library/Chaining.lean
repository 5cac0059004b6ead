import Mathlib.Data.List.Nodup
import Mathlib.Data.List.Perm.Basic
import Mathlib.Data.Set.Card

/-! Hash tables with separate chaining, over any keys, entries and slot function.

A table is the list of its chains. It is well formed when every entry sits in the slot
of its key and no key occurs twice; then searching one chain is searching the table,
and pushing, replacing and relinking entries act on the contents as on a finite map. -/
namespace SqlEngine.Library.Chaining

variable {ε κ : Type} {key : ε → κ} {slot : κ → Nat} {table : List (List ε)}
  {entry found : ε} {k : κ} {i : Nat}

/-- Every entry is in the slot of its key, every slot exists, and no key occurs twice. -/
structure Chained (key : ε → κ) (slot : κ → Nat) (table : List (List ε)) : Prop where
  inside : ∀ k, slot k < table.length
  placed : ∀ i, ∀ entry ∈ table.getD i [], slot (key entry) = i
  unique : (table.flatten.map key).Nodup

/-- The entry of a key: the first one of its chain that has the key. -/
def search [DecidableEq κ] (key : ε → κ) (slot : κ → Nat) (table : List (List ε))
    (k : κ) : Option ε :=
  (table.getD (slot k) []).find? fun entry => key entry = k

/-- Change the first entry that satisfies the test. -/
def updateFirst (test : ε → Bool) (change : ε → ε) : List ε → List ε
  | [] => []
  | entry :: chain =>
    if test entry then change entry :: chain else entry :: updateFirst test change chain

/-- Put an entry in front of the chain of its slot. -/
def push (key : ε → κ) (slot : κ → Nat) (table : List (List ε)) (entry : ε) : List (List ε) :=
  table.set (slot (key entry)) (entry :: table.getD (slot (key entry)) [])

/-- Move every entry of the chains to the front of its slot in another table. -/
def relink (key : ε → κ) (slot : κ → Nat) (chains into : List (List ε)) : List (List ε) :=
  chains.foldl (fun table chain => chain.foldl (push key slot) table) into

@[simp] theorem length_push : (push key slot table entry).length = table.length := List.length_set

/-! ## Contents -/

theorem mem_flatten_iff : entry ∈ table.flatten ↔ ∃ i, entry ∈ table.getD i [] := by
  constructor
  · intro member
    obtain ⟨chain, inTable, inChain⟩ := List.mem_flatten.mp member
    obtain ⟨i, bound, rfl⟩ := List.mem_iff_getElem.mp inTable
    exact ⟨i, by simpa [bound] using inChain⟩
  · rintro ⟨i, member⟩
    by_cases bound : i < table.length
    · have same : table.getD i [] = table[i] := by simp [bound]
      exact List.mem_flatten.mpr ⟨table[i], List.getElem_mem bound, same ▸ member⟩
    · simp [bound] at member

private theorem find_iff [DecidableEq κ] {chain : List ε} (unique : (chain.map key).Nodup) :
    (chain.find? fun entry => key entry = k) = some found ↔ found ∈ chain ∧ key found = k := by
  induction chain with
  | nil => simp
  | cons first chain ih =>
    simp only [List.map_cons, List.nodup_cons] at unique
    by_cases same : key first = k
    · simp only [List.find?_cons, same, decide_true, Option.some.injEq, List.mem_cons]
      constructor
      · rintro rfl
        exact ⟨.inl rfl, same⟩
      · rintro ⟨rfl | later, named⟩
        · rfl
        · have again : key first ∈ chain.map key := by
            rw [same, ← named]
            exact List.mem_map_of_mem later
          exact absurd again unique.1
    · simp only [List.find?_cons, same, decide_false, ih unique.2, List.mem_cons]
      constructor
      · rintro ⟨later, named⟩
        exact ⟨.inr later, named⟩
      · rintro ⟨rfl | later, named⟩
        · exact absurd named same
        · exact ⟨later, named⟩

private theorem chain_unique (unique : (table.flatten.map key).Nodup) (i : Nat) :
    ((table.getD i []).map key).Nodup := by
  by_cases bound : i < table.length
  · have part : (table.getD i []).Sublist table.flatten := by
      simpa [bound] using List.sublist_flatten_of_mem (List.getElem_mem bound)
    exact unique.sublist (part.map key)
  · simp [bound]

/-- A chain has at most one entry for each key of its slot. -/
theorem Chained.length_le [Finite κ] (chained : Chained key slot table) (i : Nat) :
    (table.getD i []).length ≤ {k | slot k = i}.ncard := by
  classical
  have ofSlot : ((table.getD i []).map key).toFinset ⊆ {k | slot k = i}.toFinite.toFinset := by
    intro k member
    obtain ⟨entry, inChain, rfl⟩ := List.mem_map.mp (List.mem_toFinset.mp member)
    exact (Set.Finite.mem_toFinset _).mpr (chained.placed i entry inChain)
  calc (table.getD i []).length = ((table.getD i []).map key).toFinset.card := by
        rw [List.toFinset_card_of_nodup (chain_unique chained.unique i), List.length_map]
    _ ≤ {k | slot k = i}.toFinite.toFinset.card := Finset.card_le_card ofSlot
    _ = {k | slot k = i}.ncard := (Set.ncard_eq_toFinset_card _).symm

/-- Searching the chain of a key is searching the whole table. -/
theorem search_iff [DecidableEq κ] (chained : Chained key slot table) :
    search key slot table k = some found ↔ found ∈ table.flatten ∧ key found = k := by
  rw [search, find_iff (chain_unique chained.unique (slot k)), mem_flatten_iff]
  constructor
  · rintro ⟨member, named⟩
    exact ⟨⟨_, member⟩, named⟩
  · rintro ⟨⟨i, member⟩, rfl⟩
    rw [chained.placed i found member]
    exact ⟨member, rfl⟩

/-- A search finds nothing exactly when no entry of the table has the key. -/
theorem search_none_iff [DecidableEq κ] (chained : Chained key slot table) :
    search key slot table k = none ↔ ∀ entry ∈ table.flatten, key entry ≠ k := by
  constructor
  · intro absent entry member named
    have present := (search_iff chained).mpr ⟨member, named⟩
    rw [absent] at present
    cases present
  · intro absent
    cases searched : search key slot table k with
    | none => rfl
    | some found =>
      obtain ⟨member, named⟩ := (search_iff chained).mp searched
      exact absurd named (absent found member)

/-- Tables with the same entries answer every search alike. -/
theorem search_congr [DecidableEq κ] {other : List (List ε)} {slot' : κ → Nat}
    (chained : Chained key slot table) (otherChained : Chained key slot' other)
    (same : ∀ entry, entry ∈ other.flatten ↔ entry ∈ table.flatten) :
    search key slot' other k = search key slot table k := by
  cases searched : search key slot table k with
  | none =>
    rw [search_none_iff otherChained]
    intro entry member
    exact (search_none_iff chained).mp searched entry ((same entry).mp member)
  | some found =>
    rw [search_iff otherChained]
    obtain ⟨member, named⟩ := (search_iff chained).mp searched
    exact ⟨(same found).mpr member, named⟩

/-! ## Changing one chain -/

private theorem flatten_perm (bound : i < table.length) :
    table.flatten.Perm (table.getD i [] ++ (table.eraseIdx i).flatten) := by
  have split := (List.getElem_cons_eraseIdx_perm bound).symm.flatten
  simpa [bound] using split

private theorem flatten_set_perm (chain : List ε) (bound : i < table.length) :
    (table.set i chain).flatten.Perm (chain ++ (table.eraseIdx i).flatten) := by
  have split : (table.set i chain).flatten.Perm _ := flatten_perm (by simpa using bound)
  simpa [bound, List.eraseIdx_set_eq] using split

/-- Pushing adds one entry to the contents. -/
theorem push_perm (bound : slot (key entry) < table.length) :
    (push key slot table entry).flatten.Perm (entry :: table.flatten) :=
  (flatten_set_perm _ bound).trans ((flatten_perm bound).symm.cons entry)

private theorem getD_set (chain : List ε) (j : Nat) (bound : i < table.length) :
    (table.set i chain).getD j [] = if i = j then chain else table.getD j [] := by
  by_cases same : i = j
  · subst same
    simp [bound]
  · simp [List.getElem?_set_ne same, same]

private theorem placed_set {chain : List ε} (chained : Chained key slot table)
    (bound : i < table.length) (placed : ∀ entry ∈ chain, slot (key entry) = i) :
    ∀ j, ∀ entry ∈ (table.set i chain).getD j [], slot (key entry) = j := by
  intro j entry member
  rw [getD_set chain j bound] at member
  split at member
  · rename_i same
    rw [placed entry member, same]
  · exact chained.placed j entry member

/-- A new key is pushed in front of its chain. -/
theorem push_chained [DecidableEq κ] (chained : Chained key slot table)
    (fresh : search key slot table (key entry) = none) :
    Chained key slot (push key slot table entry) := by
  have bound := chained.inside (key entry)
  refine ⟨fun k => by simpa using chained.inside k, ?_, ?_⟩
  · apply placed_set chained bound
    intro other member
    rcases List.mem_cons.mp member with rfl | later
    · rfl
    · exact chained.placed _ other later
  · rw [((push_perm bound).map key).nodup_iff, List.map_cons, List.nodup_cons]
    refine ⟨?_, chained.unique⟩
    intro member
    obtain ⟨other, inTable, named⟩ := List.mem_map.mp member
    exact (search_none_iff chained).mp fresh other inTable named

/-- A pushed entry is found under its key; every other search is unchanged. -/
theorem search_push [DecidableEq κ] (chained : Chained key slot table)
    (fresh : search key slot table (key entry) = none) :
    search key slot (push key slot table entry) k =
      if k = key entry then some entry else search key slot table k := by
  have pushed := push_chained chained fresh
  have contents : ∀ other, other ∈ (push key slot table entry).flatten ↔
      other = entry ∨ other ∈ table.flatten :=
    fun other => by rw [(push_perm (chained.inside _)).mem_iff, List.mem_cons]
  split
  · rename_i same
    rw [search_iff pushed]
    exact ⟨(contents entry).mpr (.inl rfl), same.symm⟩
  · rename_i different
    cases searched : search key slot table k with
    | none =>
      rw [search_none_iff pushed]
      intro other member
      rcases (contents other).mp member with rfl | inTable
      · exact fun named => different named.symm
      · exact (search_none_iff chained).mp searched other inTable
    | some found =>
      rw [search_iff pushed]
      obtain ⟨member, named⟩ := (search_iff chained).mp searched
      exact ⟨(contents found).mpr (.inr member), named⟩

/-! ## Replacing -/

section Replace

variable {change : ε → ε} (keeps : ∀ entry, key (change entry) = key entry)

include keeps

private theorem updateFirst_keys (test : ε → Bool) (chain : List ε) :
    (updateFirst test change chain).map key = chain.map key := by
  induction chain with
  | nil => rfl
  | cons first chain ih =>
    simp only [updateFirst]
    split
    · simp [keeps]
    · simp [ih]

private theorem find_updateFirst [DecidableEq κ] (chain : List ε) (k l : κ) :
    ((updateFirst (fun entry => key entry = k) change chain).find? fun entry => key entry = l) =
      if l = k then (chain.find? fun entry => key entry = k).map change
      else chain.find? fun entry => key entry = l := by
  induction chain with
  | nil => simp [updateFirst]
  | cons first chain ih =>
    by_cases hit : key first = k
    · by_cases same : l = k
      · subst same
        simp [updateFirst, hit, keeps]
      · have other : ¬ k = l := fun eq => same eq.symm
        simp [updateFirst, hit, keeps, same, other]
    · by_cases same : l = k
      · subst same
        simp only [↓reduceIte] at ih
        simp [updateFirst, hit, ih]
      · simp only [same, ↓reduceIte] at ih
        simp [updateFirst, hit, ih, same, List.find?_cons]

/-- Changing an entry in place keeps the keys of the table. -/
theorem replace_keys (test : ε → Bool) (bound : i < table.length) :
    ((table.set i (updateFirst test change (table.getD i []))).flatten.map key).Perm
      (table.flatten.map key) := by
  have before := (flatten_perm bound).map key
  have after := (flatten_set_perm (updateFirst test change (table.getD i [])) bound).map key
  rw [List.map_append] at before after
  rw [updateFirst_keys keeps] at after
  exact after.trans before.symm

/-- Changing the entry of a key in place keeps the table well formed. -/
theorem replace_chained (chained : Chained key slot table) (test : ε → Bool)
    (bound : i < table.length) :
    Chained key slot (table.set i (updateFirst test change (table.getD i []))) := by
  refine ⟨fun k => by simpa using chained.inside k, ?_, ?_⟩
  · apply placed_set chained bound
    intro entry member
    have keyed : key entry ∈ (table.getD i []).map key := by
      rw [← updateFirst_keys keeps test]
      exact List.mem_map_of_mem member
    obtain ⟨other, inChain, named⟩ := List.mem_map.mp keyed
    rw [← named]
    exact chained.placed i other inChain
  · exact (replace_keys keeps test bound).nodup_iff.mpr chained.unique

/-- Changing the entry of a key in place changes the search for that key only. -/
theorem search_replace [DecidableEq κ] (chained : Chained key slot table) (k l : κ) :
    search key slot
        (table.set (slot k)
          (updateFirst (fun entry => key entry = k) change (table.getD (slot k) []))) l =
      if l = k then (search key slot table k).map change else search key slot table l := by
  rw [search, getD_set _ _ (chained.inside k)]
  by_cases same : slot k = slot l
  · rw [if_pos same, find_updateFirst keeps, same]
    split
    · rename_i eq
      rw [eq, search]
    · rfl
  · rw [if_neg same, if_neg (fun eq => same (by rw [eq]))]
    rfl

end Replace

/-! ## Relinking -/

private theorem relink_eq (chains into : List (List ε)) :
    relink key slot chains into = chains.flatten.foldl (push key slot) into := by
  rw [relink, List.foldl_flatten]

private theorem foldl_push_spec (key : ε → κ) (slot : κ → Nat) (entries : List ε)
    (table : List (List ε)) (inside : ∀ k, slot k < table.length) :
    (entries.foldl (push key slot) table).flatten.Perm (entries ++ table.flatten) ∧
      (entries.foldl (push key slot) table).length = table.length ∧
      ((∀ j, ∀ entry ∈ table.getD j [], slot (key entry) = j) →
        ∀ j, ∀ entry ∈ (entries.foldl (push key slot) table).getD j [], slot (key entry) = j) := by
  induction entries generalizing table with
  | nil => exact ⟨.refl _, rfl, id⟩
  | cons first entries ih =>
    have bound := inside (key first)
    obtain ⟨contents, length, placed⟩ := ih (push key slot table first) (by simpa using inside)
    refine ⟨?_, by simpa using length, fun before => placed fun j entry member => ?_⟩
    · exact contents.trans ((push_perm bound).append_left entries |>.trans List.perm_middle)
    · rw [push, getD_set _ _ bound] at member
      split at member
      · rename_i same
        subst same
        rcases List.mem_cons.mp member with rfl | later
        · rfl
        · exact before _ entry later
      · exact before j entry member

/-- Moving all entries into an empty table keeps the contents, with any slot function
for the new table. -/
theorem relink_chained (size : Nat) (unique : (table.flatten.map key).Nodup)
    (inside : ∀ k, slot k < size) :
    Chained key slot (relink key slot table (List.replicate size [])) ∧
      (relink key slot table (List.replicate size [])).flatten.Perm table.flatten ∧
      (relink key slot table (List.replicate size [])).length = size := by
  rw [relink_eq]
  obtain ⟨contents, length, placed⟩ := foldl_push_spec key slot table.flatten
    (List.replicate size []) (by simpa using inside)
  have empty : (List.replicate size ([] : List ε)).flatten = [] := by simp
  rw [empty, List.append_nil] at contents
  refine ⟨⟨fun k => by simpa [length] using inside k, placed ?_, ?_⟩, contents,
    by simpa using length⟩
  · intro j entry member
    by_cases bound : j < size
    · simp [bound] at member
    · simp [bound] at member
  · exact ((contents.map key).nodup_iff).mpr unique

end SqlEngine.Library.Chaining
