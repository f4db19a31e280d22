import Mathlib.Data.List.Nodup
import Mathlib.Data.List.Perm.Subperm
import Mathlib.Tactic.Push
import PackageAtlas.Proofs.Dedupe.Renaming

/-!
New names for the declarations of a file. The numbered names of a name are pairwise different, so
that among one more of them than names are taken there is a free one. Package-level names are claimed
one after the other, and then methods, each under the new name of its type. What is claimed was free
before, and no two declarations of the file are left with one key.
-/

set_option autoImplicit false
set_option relaxedAutoImplicit false

namespace PackageAtlas

/-! ### Numbered names -/

/-- Whether a name is another one followed by a mark and a number from one on. -/
def IsNumbered (old new : String) : Prop := ∃ k, 1 ≤ k ∧ new = DeclKey.numbered old k

namespace DeclKey

theorem toList_numbered (name : String) (k : Nat) :
    (numbered name k).toList = name.toList ++ ("_nobuild".toList ++ (toString k).toList) := by
  simp [numbered]

theorem numbered_injective (name : String) : Function.Injective (numbered name) := by
  intro a b h
  have hlists := congrArg String.toList h
  rw [toList_numbered, toList_numbered] at hlists
  have hdigits : (toString a).toList = (toString b).toList :=
    List.append_cancel_left (List.append_cancel_left hlists)
  rw [Nat.toString_eq_repr, Nat.toString_eq_repr, Nat.toList_repr, Nat.toList_repr] at hdigits
  rw [← Nat.ofDigitChars_ten_toDigits (n := a), hdigits, Nat.ofDigitChars_ten_toDigits]

theorem length_lt_numbered (name : String) (k : Nat) :
    name.toList.length < (numbered name k).toList.length := by
  rw [toList_numbered]
  simp

theorem numbered_ne (name : String) (k : Nat) : numbered name k ≠ name := by
  intro h
  have hlength := length_lt_numbered name k
  rw [h] at hlength
  exact Nat.lt_irrefl _ hlength

end DeclKey

theorem IsNumbered.ne {old new : String} (h : IsNumbered old new) : new ≠ old := by
  obtain ⟨k, -, rfl⟩ := h
  exact DeclKey.numbered_ne old k

theorem IsNumbered.length {old new : String} (h : IsNumbered old new) :
    8 < new.toList.length := by
  obtain ⟨k, -, rfl⟩ := h
  rw [DeclKey.toList_numbered]
  have hdigits : (toString k).toList ≠ [] := by
    rw [Nat.toString_eq_repr, Nat.toList_repr]
    exact Nat.toDigits_ne_nil
  have hpos := List.length_pos_of_ne_nil hdigits
  simp only [List.length_append]
  have hmark : "_nobuild".toList.length = 8 := by decide
  omega

namespace DeclKey

/-- The candidates for a new name, in the order in which they are tried. -/
theorem exists_free (taken : List DeclKey) (key : DeclKey) :
    ∃ k < taken.length + 1, (⟨key.owner, numbered key.name (k + 1)⟩ : DeclKey) ∉ taken := by
  by_contra hall
  push Not at hall
  let candidates := (List.range (taken.length + 1)).map fun k ↦
    (⟨key.owner, numbered key.name (k + 1)⟩ : DeclKey)
  have hnodup : candidates.Nodup := by
    refine List.Nodup.map ?_ List.nodup_range
    intro a b h
    have hname := congrArg DeclKey.name h
    exact Nat.succ.inj (numbered_injective key.name hname)
  have hsubset : candidates ⊆ taken := by
    intro candidate hmem
    obtain ⟨k, hk, rfl⟩ := List.mem_map.mp hmem
    exact hall k (List.mem_range.mp hk)
  have hlength := (List.subperm_of_subset hnodup hsubset).length_le
  simp only [candidates, List.length_map, List.length_range] at hlength
  omega

theorem freeName_spec (taken : List DeclKey) (key : DeclKey) :
    IsNumbered key.name (freeName taken key) ∧
      (⟨key.owner, freeName taken key⟩ : DeclKey) ∉ taken := by
  obtain ⟨k, hk, hfree⟩ := exists_free taken key
  let candidates := (List.range (taken.length + 1)).map fun k ↦ numbered key.name (k + 1)
  let isFree : String → Bool := fun name ↦ !taken.contains ⟨key.owner, name⟩
  have hsome : (candidates.find? isFree).isSome := by
    rw [List.find?_isSome]
    refine ⟨numbered key.name (k + 1), List.mem_map.mpr ⟨k, List.mem_range.mpr hk, rfl⟩, ?_⟩
    simpa [isFree] using hfree
  obtain ⟨name, hname⟩ := Option.isSome_iff_exists.mp hsome
  have hfound : freeName taken key = name := by
    change (candidates.find? isFree).getD "" = name
    rw [hname, Option.getD_some]
  rw [hfound]
  constructor
  · obtain ⟨j, -, rfl⟩ := List.mem_map.mp (List.mem_of_find?_eq_some hname)
    exact ⟨j + 1, Nat.le_add_left 1 j, rfl⟩
  · simpa [isFree] using List.find?_some hname

/-! ### Claims -/

/-- A step after another one whose outcome is known. -/
theorem run_bind_of_run {σ α β : Type} {first : StateM σ α} {next : α → StateM σ β} {state state' : σ}
    {value : α} (h : first.run state = (value, state')) :
    (first >>= next).run state = (next value).run state' := by
  rw [StateT.run_bind, h]
  rfl

/-- The key of a declaration after a claim. -/
def after (key : DeclKey) (result : Option String) : DeclKey := ⟨key.owner, result.getD key.name⟩

theorem claim_of_not_mem {key : DeclKey} {taken : List DeclKey} (h : key ∉ taken) :
    key.claim.run taken = (none, key :: taken) := by
  simp [claim, h]
  rfl

theorem claim_of_mem {key : DeclKey} {taken : List DeclKey} (h : key ∈ taken) :
    key.claim.run taken =
      (some (freeName taken key), ⟨key.owner, freeName taken key⟩ :: taken) := by
  simp [claim, h]
  rfl

/-- A claim takes exactly the key that it leaves to the declaration, which was free; a new name is
a numbered one. -/
theorem claim_spec (key : DeclKey) (taken : List DeclKey) :
    ∃ result, key.claim.run taken = (result, key.after result :: taken) ∧
      key.after result ∉ taken ∧ ∀ name ∈ result, IsNumbered key.name name := by
  by_cases h : key ∈ taken
  · obtain ⟨hnumbered, hfree⟩ := freeName_spec taken key
    refine ⟨some (freeName taken key), claim_of_mem h, hfree, ?_⟩
    intro name hname
    rwa [← Option.mem_some.mp hname]
  · exact ⟨none, claim_of_not_mem h, h, fun _ hname ↦ absurd hname (Option.not_mem_none _)⟩

end DeclKey

/-! ### Names of a file -/

theorem Renames.apply_eq_self {renames : Renames} {name : String}
    (h : ∀ entry ∈ renames, entry.1 ≠ name) : renames.apply name = name := by
  have hnone : renames.lookup name = none :=
    List.lookup_eq_none_iff.mpr fun entry hentry ↦ by simpa using (h entry hentry).symm
  rw [Renames.apply, hnone, Option.getD_none]

theorem Renames.apply_append_singleton_of_ne {renames : Renames} {old new name : String}
    (h : name ≠ old) : Renames.apply (renames ++ [(old, new)]) name = renames.apply name := by
  have hne : (name == old) = false := by simpa using h
  simp only [Renames.apply, List.lookup_append, List.lookup_cons, hne, List.lookup_nil,
    Option.or_none]

theorem Renames.apply_append_singleton_self {renames : Renames} {old new : String}
    (h : ∀ entry ∈ renames, entry.1 ≠ old) :
    Renames.apply (renames ++ [(old, new)]) old = new := by
  have hnone : renames.lookup old = none :=
    List.lookup_eq_none_iff.mpr fun entry hentry ↦ by simpa using (h entry hentry).symm
  simp only [Renames.apply, List.lookup_append, hnone, List.lookup_cons, beq_self_eq_true,
    Option.none_or, Option.getD_some]

theorem Dict.put_of_not_mem {κ α : Type} [DecidableEq κ] {key : κ} {value : α}
    {entries : List (κ × α)} (h : ∀ entry ∈ entries, entry.1 ≠ key) :
    Dict.put key value entries = entries ++ [(key, value)] := by
  induction entries with
  | nil => rfl
  | cons entry rest ih =>
    rw [Dict.put, if_neg (h entry List.mem_cons_self), List.cons_append,
      ih fun other hother ↦ h other (List.mem_cons_of_mem entry hother)]

/-! ### Package-level names -/

namespace DeclKey

/-- The claim of one package-level name, with the new names so far. -/
def claimInto (renames : Dict String String) (key : DeclKey) :
    StateM (List DeclKey) (Dict String String) := do
  match ← key.claim with
  | some name => return renames.insert key.name name
  | none => return renames

/-- What the claims of some package-level names did: where they started from, the new names, and
what was taken when they ended. -/
structure NameClaims (taken keys : List DeclKey) (renames : Dict String String)
    (taken' : List DeclKey) : Prop where
  owner : ∀ key ∈ keys, key.owner = none
  numbered : ∀ entry ∈ renames.entries,
    (⟨none, entry.1⟩ : DeclKey) ∈ keys ∧ IsNumbered entry.1 entry.2
  nodup : (keys.map (rename renames.entries)).Nodup
  fresh : ∀ key ∈ keys.map (rename renames.entries), key ∉ taken
  mem_taken : ∀ key, key ∈ taken' ↔ key ∈ keys.map (rename renames.entries) ∨ key ∈ taken
  length : renames.entries.length =
    keys.countP fun key ↦ Renames.apply renames.entries key.name != key.name

theorem NameClaims.nil (taken : List DeclKey) : NameClaims taken [] Dict.empty taken where
  owner := fun _ hkey ↦ absurd hkey List.not_mem_nil
  numbered := fun _ hentry ↦ absurd hentry List.not_mem_nil
  nodup := List.nodup_nil
  fresh := fun _ hkey ↦ absurd hkey List.not_mem_nil
  mem_taken := fun key ↦ by simp
  length := rfl

theorem rename_congr {renames renames' : Renames} {key : DeclKey} (howner : key.owner = none)
    (h : renames'.apply key.name = renames.apply key.name) :
    key.rename renames' = key.rename renames := by
  obtain ⟨owner, name⟩ := key
  cases howner
  rw [rename, rename, h]

section Step

variable {taken keys taken' : List DeclKey} {renames : Dict String String} {name : String}

/-- One more name with the key that its claim left to it. -/
theorem NameClaims.snoc (h : NameClaims taken keys renames taken')
    (renames' : Dict String String) (name : String)
    (hkeys : ∀ key ∈ keys,
      Renames.apply renames'.entries key.name = Renames.apply renames.entries key.name)
    (hnumbered : ∀ entry ∈ renames'.entries, entry ∈ renames.entries ∨
      entry.1 = name ∧ IsNumbered entry.1 entry.2)
    (hfresh : rename renames'.entries ⟨none, name⟩ ∉ taken')
    (hlength : renames'.entries.length = renames.entries.length +
      if Renames.apply renames'.entries name != name then 1 else 0) :
    NameClaims taken (keys ++ [⟨none, name⟩]) renames'
      (rename renames'.entries ⟨none, name⟩ :: taken') := by
  have hmap : (keys ++ [(⟨none, name⟩ : DeclKey)]).map (rename renames'.entries) =
      keys.map (rename renames.entries) ++ [rename renames'.entries ⟨none, name⟩] := by
    have hold : keys.map (rename renames'.entries) = keys.map (rename renames.entries) :=
      List.map_congr_left fun key hkey ↦ rename_congr (h.owner key hkey) (hkeys key hkey)
    rw [List.map_append, List.map_singleton, hold]
  have hnot := mt (h.mem_taken _).mpr hfresh
  rw [not_or] at hnot
  constructor
  · intro key hkey
    rcases List.mem_append.mp hkey with hkey | hkey
    · exact h.owner key hkey
    · rw [List.mem_singleton.mp hkey]
  · intro entry hentry
    rcases hnumbered entry hentry with hold | ⟨rfl, hnew⟩
    · exact ⟨List.mem_append_left _ (h.numbered entry hold).1, (h.numbered entry hold).2⟩
    · exact ⟨List.mem_append_right _ (List.mem_singleton.mpr rfl), hnew⟩
  · rw [hmap]
    refine h.nodup.append (List.nodup_singleton _) ?_
    rw [List.disjoint_singleton]
    exact hnot.1
  · intro key hkey
    rw [hmap, List.mem_append, List.mem_singleton] at hkey
    rcases hkey with hkey | rfl
    · exact h.fresh key hkey
    · exact hnot.2
  · intro key
    rw [List.mem_cons, h.mem_taken, hmap, List.mem_append, List.mem_singleton]
    tauto
  · have hsame : (keys.countP fun key ↦ Renames.apply renames'.entries key.name != key.name) =
        keys.countP fun key ↦ Renames.apply renames.entries key.name != key.name := by
      refine List.countP_congr fun key hkey ↦ ?_
      rw [hkeys key hkey]
    rw [hlength, h.length, List.countP_append, hsame, List.countP_singleton]

/-- A name that is not among the claimed ones has no new name yet. -/
theorem NameClaims.entry_ne (h : NameClaims taken keys renames taken')
    (hname : (⟨none, name⟩ : DeclKey) ∉ keys) : ∀ entry ∈ renames.entries, entry.1 ≠ name := by
  rintro entry hentry rfl
  exact hname (h.numbered entry hentry).1

theorem NameClaims.step (h : NameClaims taken keys renames taken')
    (hname : (⟨none, name⟩ : DeclKey) ∉ keys) :
    ∃ renames' taken'', (claimInto renames ⟨none, name⟩).run taken' = (renames', taken'') ∧
      NameClaims taken (keys ++ [⟨none, name⟩]) renames' taken'' := by
  have hne := h.entry_ne hname
  have hself := Renames.apply_eq_self hne
  obtain ⟨result, hrun, hfresh, hnumbered⟩ := claim_spec ⟨none, name⟩ taken'
  cases result with
  | none =>
    have hkey : rename renames.entries ⟨none, name⟩ = ⟨none, name⟩ := by rw [rename, hself]
    refine ⟨renames, ⟨none, name⟩ :: taken', ?_, ?_⟩
    · rw [claimInto, run_bind_of_run hrun]
      rfl
    · have hsnoc := h.snoc renames name (fun _ _ ↦ rfl)
        (fun _ hentry ↦ Or.inl hentry) (by rw [hkey]; exact hfresh) (by simp [hself])
      rwa [hkey] at hsnoc
  | some new =>
    have hnew := hnumbered new rfl
    have hentries : (renames.insert name new).entries = renames.entries ++ [(name, new)] :=
      Dict.put_of_not_mem hne
    have happly : Renames.apply (renames.insert name new).entries name = new := by
      rw [hentries, Renames.apply_append_singleton_self hne]
    have hkey : rename (renames.insert name new).entries ⟨none, name⟩ = ⟨none, new⟩ := by
      rw [rename, happly]
    refine ⟨renames.insert name new, ⟨none, new⟩ :: taken', ?_, ?_⟩
    · rw [claimInto, run_bind_of_run hrun]
      rfl
    · have hsnoc := h.snoc (renames.insert name new) name ?_ ?_ ?_ ?_
      · rwa [hkey] at hsnoc
      · intro key hmem
        have hother : key.name ≠ name := by
          rintro rfl
          exact hname (by rwa [← h.owner key hmem])
        rw [hentries, Renames.apply_append_singleton_of_ne hother]
      · intro entry hentry
        rw [hentries, List.mem_append, List.mem_singleton] at hentry
        rcases hentry with hentry | rfl
        · exact Or.inl hentry
        · exact Or.inr ⟨rfl, hnew⟩
      · rw [hkey]
        exact hfresh
      · rw [happly, hentries]
        simp [hnew.ne]

end Step

/-- All claims of package-level names, one after the other. -/
theorem NameClaims.run {taken : List DeclKey} (rest : List DeclKey) :
    ∀ {keys taken' : List DeclKey} {renames : Dict String String},
      NameClaims taken keys renames taken' → (keys ++ rest).Nodup →
        (∀ key ∈ rest, key.owner = none) →
        ∃ renames' taken'', (rest.foldlM claimInto renames).run taken' = (renames', taken'') ∧
          NameClaims taken (keys ++ rest) renames' taken'' := by
  induction rest with
  | nil =>
    intro keys taken' renames h _ _
    exact ⟨renames, taken', rfl, by rwa [List.append_nil]⟩
  | cons key rest ih =>
    intro keys taken' renames h hnodup howner
    obtain ⟨owner, name⟩ := key
    cases howner _ List.mem_cons_self
    have hname : (⟨none, name⟩ : DeclKey) ∉ keys := fun hmem ↦
      List.disjoint_of_nodup_append hnodup hmem List.mem_cons_self
    obtain ⟨renames', taken'', hrun, hstep⟩ := h.step hname
    rw [List.append_cons] at hnodup ⊢
    obtain ⟨renamesLast, takenLast, hrest, hlast⟩ :=
      ih hstep hnodup fun key hkey ↦ howner key (List.mem_cons_of_mem _ hkey)
    refine ⟨renamesLast, takenLast, ?_, hlast⟩
    rw [List.foldlM_cons, run_bind_of_run hrun]
    exact hrest

end DeclKey

end PackageAtlas
