import ZaqorinCore.Server.Wire

/-!
# JSON objects and the order of their keys

`json.dumps` with `sort_keys=True` writes the members of every object in the order of their keys,
and `json.loads` reads them back in the order of the text. `sortKeys` is the value that comes back.
Two values are one Python value when their sorted forms are equal.
-/

namespace ZaqorinCore.Server

open Text

/-- Before the first member that has a greater key. -/
def insertMember (m : Str × Json) : List (Str × Json) → List (Str × Json)
  | [] => [m]
  | n :: ns => if m.1 < n.1 then m :: n :: ns else n :: insertMember m ns

mutual

/-- The value with the members of every object in the order of their keys. -/
def sortKeys : Json → Json
  | .arr items => .arr (sortItems items)
  | .obj members => .obj (sortMembers members)
  | .null => .null
  | .bool b => .bool b
  | .int n => .int n
  | .float repr => .float repr
  | .str s => .str s

def sortItems : List Json → List Json
  | [] => []
  | v :: vs => sortKeys v :: sortItems vs

def sortMembers : List (Str × Json) → List (Str × Json)
  | [] => []
  | m :: ms => insertMember (sortMember m) (sortMembers ms)

def sortMember : Str × Json → Str × Json
  | (key, v) => (key, sortKeys v)

end

/-- `d[key] = value` for a dictionary. -/
def dictSet (members : List (Str × Json)) (key : Str) (value : Json) : List (Str × Json) :=
  if members.any (fun m => m.1 == key) then
    members.map fun m => if m.1 == key then (key, value) else m
  else members ++ [(key, value)]

variable {members : List (Str × Json)} {m n : Str × Json} {key : Str}

@[simp]
theorem mem_insertMember : n ∈ insertMember m members ↔ n = m ∨ n ∈ members := by
  induction members with
  | nil => simp [insertMember]
  | cons first rest ih =>
    unfold insertMember
    split
    · simp
    · simp only [List.mem_cons, ih]
      tauto

theorem mem_sortMembers : n ∈ sortMembers members ↔ ∃ m ∈ members, n = (m.1, sortKeys m.2) := by
  induction members with
  | nil => simp [sortMembers]
  | cons first rest ih =>
    obtain ⟨k, v⟩ := first
    simp [sortMembers, sortMember, ih]

/-- Sorting keeps the set of keys. -/
theorem key_sortMembers : (∃ n ∈ sortMembers members, n.1 = key) ↔ ∃ m ∈ members, m.1 = key := by
  constructor
  · rintro ⟨n, hn, hkey⟩
    obtain ⟨m, hm, rfl⟩ := mem_sortMembers.mp hn
    exact ⟨m, hm, hkey⟩
  · rintro ⟨m, hm, hkey⟩
    exact ⟨(m.1, sortKeys m.2), mem_sortMembers.mpr ⟨m, hm, rfl⟩, hkey⟩

theorem keys_of_sortKeys_eq {members' : List (Str × Json)}
    (h : sortKeys (.obj members) = sortKeys (.obj members')) :
    (∃ m ∈ members, m.1 = key) ↔ ∃ m ∈ members', m.1 = key := by
  simp only [sortKeys, Json.obj.injEq] at h
  rw [← key_sortMembers, h, key_sortMembers]

theorem perm_insertMember : (insertMember m members).Perm (m :: members) := by
  induction members with
  | nil => exact List.Perm.refl _
  | cons first rest ih =>
    unfold insertMember
    split
    · exact List.Perm.refl _
    · exact (ih.cons first).trans (List.Perm.swap m first rest)

theorem keys_sortMembers : ((sortMembers members).map Prod.fst).Perm (members.map Prod.fst) := by
  induction members with
  | nil => exact List.Perm.refl _
  | cons first rest ih =>
    obtain ⟨k, v⟩ := first
    have hinsert : (insertMember (k, sortKeys v) (sortMembers rest)).Perm
        ((k, sortKeys v) :: sortMembers rest) := perm_insertMember
    exact (hinsert.map Prod.fst).trans (ih.cons k)

theorem field_mem {name : String} {v : Json} (h : field members name = some v) :
    (name.toList, v) ∈ members := by
  unfold field at h
  obtain ⟨m, hm, rfl⟩ := Option.map_eq_some_iff.mp h
  have hkey : m.1 = name.toList := by simpa using List.find?_some hm
  rw [← hkey]
  exact List.mem_of_find?_eq_some hm

theorem field_eq_none {name : String} :
    field members name = none ↔ ∀ m ∈ members, m.1 ≠ name.toList := by
  simp [field]

theorem field_of_mem {name : String} {v : Json} (hkeys : (members.map Prod.fst).Nodup)
    (h : (name.toList, v) ∈ members) : field members name = some v := by
  induction members with
  | nil => exact absurd h List.not_mem_nil
  | cons first rest ih =>
    rw [List.map_cons, List.nodup_cons] at hkeys
    rcases List.mem_cons.mp h with rfl | hrest
    · simp [field]
    · have hne : first.1 ≠ name.toList := by
        intro heq
        exact hkeys.1 (heq ▸ List.mem_map_of_mem hrest)
      have htail := ih hkeys.2 hrest
      unfold field at htail ⊢
      rw [List.find?_cons_of_neg (by simpa using hne)]
      exact htail

/-- Sorting keeps the members of a dictionary. -/
theorem field_sortMembers {name : String} {v : Json} (hkeys : (members.map Prod.fst).Nodup)
    (h : field members name = some v) : field (sortMembers members) name = some (sortKeys v) := by
  apply field_of_mem
  · exact keys_sortMembers.nodup_iff.mpr hkeys
  · exact mem_sortMembers.mpr ⟨_, field_mem h, rfl⟩

theorem key_dictSet {value : Json} : ∃ m ∈ dictSet members key value, m.1 = key := by
  unfold dictSet
  split
  · rename_i h
    obtain ⟨m, hm, hkey⟩ := List.any_eq_true.mp h
    refine ⟨(key, value), List.mem_map.mpr ⟨m, hm, ?_⟩, rfl⟩
    rw [if_pos hkey]
  · exact ⟨(key, value), by simp, rfl⟩

theorem key_dictSet_of_key {other : Str} {value : Json} (h : ∃ m ∈ members, m.1 = key) :
    ∃ m ∈ dictSet members other value, m.1 = key := by
  obtain ⟨m, hm, hkey⟩ := h
  unfold dictSet
  split
  · refine ⟨_, List.mem_map.mpr ⟨m, hm, rfl⟩, ?_⟩
    split
    · rename_i hother
      rw [← hkey]
      exact (by simpa using hother : m.1 = other).symm
    · exact hkey
  · exact ⟨m, List.mem_append_left _ hm, hkey⟩

/-- Setting a member changes no key. -/
theorem key_replace (key other : Str) (value : Json) :
    ((fun m : Str × Json => m.1 == other) ∘ fun m => if m.1 == key then (key, value) else m) =
      fun m => m.1 == other := by
  funext m
  simp only [Function.comp]
  split
  · rename_i hm
    have hm : m.1 = key := by simpa using hm
    rw [hm]
  · rfl

theorem field_dictSet_self {name : String} {value : Json} :
    field (dictSet members name.toList value) name = some value := by
  unfold dictSet field
  split
  · rename_i hany
    rw [List.find?_map, key_replace]
    obtain ⟨m, hm⟩ := Option.isSome_iff_exists.mp
      (List.find?_isSome.mpr (List.any_eq_true.mp hany))
    have hkey := List.find?_some hm
    rw [hm, Option.map_some, if_pos hkey]
    rfl
  · rename_i hany
    have hnone : members.find? (fun m => m.1 == name.toList) = none := by
      rw [List.find?_eq_none]
      intro m hm hkey
      exact hany (List.any_eq_true.mpr ⟨m, hm, hkey⟩)
    rw [List.find?_append, hnone]
    simp

/-- The other members stay. -/
theorem field_dictSet_of_ne {name : String} {value : Json} (h : name.toList ≠ key) :
    field (dictSet members key value) name = field members name := by
  have hne : ¬ (key == name.toList) = true := by simpa using Ne.symm h
  unfold dictSet field
  split
  · rw [List.find?_map, key_replace, Option.map_map]
    cases hfind : members.find? fun m => m.1 == name.toList with
    | none => rfl
    | some m =>
      have hm : m.1 = name.toList := by simpa using List.find?_some hfind
      simp [hm, h]
  · rw [List.find?_append, List.find?_singleton, if_neg hne, Option.or_none]

end ZaqorinCore.Server
