import PackageAtlas.Proofs.Dedupe.MethodClaims

/-!
Claims in a row. A run over names is known by its claims and what they led to: a key that is taken
at the end was taken before, was claimed while it was free, or was made for a claim of a taken key.
So a claim that leads to a new name has one of these reasons, before it (`Claims.reason`).
The claims of package-level names make the table of the new names of a file.
-/

set_option autoImplicit false
set_option relaxedAutoImplicit false

namespace PackageAtlas

open DeclKey

/-! ### Claims -/

/-- A claimed key, and the new name that the claim led to if the key was taken. -/
abbrev ClaimedKey := DeclKey × Option String

/-- Claims one after the other, from what is taken before them to what is taken after them. -/
inductive Claims : List DeclKey → List ClaimedKey → List DeclKey → Prop
  | nil (taken : List DeclKey) : Claims taken [] taken
  | cons {key : DeclKey} {result : Option String} {taken taken' last : List DeclKey}
    {rest : List ClaimedKey} (hrun : key.claim.run taken = (result, taken'))
    (hrest : Claims taken' rest last) : Claims taken ((key, result) :: rest) last

/-- A claim finds its key free, or taken and then makes a numbered name. -/
theorem DeclKey.claim_cases {key : DeclKey} {result : Option String} {taken taken' : List DeclKey}
    (h : key.claim.run taken = (result, taken')) :
    (result = none ∧ taken' = key :: taken) ∨
      ∃ new, result = some new ∧ key ∈ taken ∧ IsNumbered key.name new ∧
        taken' = ⟨key.owner, new⟩ :: taken := by
  by_cases hkey : key ∈ taken
  · rw [claim_of_mem hkey] at h
    cases h
    exact Or.inr ⟨_, rfl, hkey, (freeName_spec taken key).1, rfl⟩
  · rw [claim_of_not_mem hkey] at h
    cases h
    exact Or.inl ⟨rfl, rfl⟩

namespace Claims

variable {taken taken' last : List DeclKey} {before after trace : List ClaimedKey}
  {key : DeclKey} {new : String}

theorem append (h : Claims taken before taken') (hafter : Claims taken' after last) :
    Claims taken (before ++ after) last := by
  induction h with
  | nil _ => exact hafter
  | cons hrun _ ih => exact .cons hrun (ih hafter)

theorem split (h : Claims taken (before ++ after) last) :
    ∃ taken', Claims taken before taken' ∧ Claims taken' after last := by
  induction before generalizing taken with
  | nil => exact ⟨taken, .nil taken, h⟩
  | cons claim before ih =>
    cases h with
    | cons hrun hrest =>
      obtain ⟨taken', hbefore, hafter⟩ := ih hrest
      exact ⟨taken', .cons hrun hbefore, hafter⟩

/-- A new name is a numbered one. -/
theorem isNumbered (h : Claims taken trace last) (hclaim : (key, some new) ∈ trace) :
    IsNumbered key.name new := by
  obtain ⟨before, after, rfl⟩ := List.append_of_mem hclaim
  obtain ⟨taken', -, hafter⟩ := h.split
  cases hafter with
  | cons hrun _ =>
    rcases claim_cases hrun with ⟨hnone, -⟩ | ⟨_, hsome, -, hnumbered, -⟩
    · cases hnone
    · cases hsome
      exact hnumbered

/-- Why a key is taken: it was before, it was claimed while it was free, or it was made for a claim
of a taken key. -/
def Accounts (taken : List DeclKey) (trace : List ClaimedKey) (key : DeclKey) : Prop :=
  key ∈ taken ∨ (key, none) ∈ trace ∨
    ∃ claim new, (claim, some new) ∈ trace ∧ key = ⟨claim.owner, new⟩

theorem accounts (h : Claims taken trace last) (hkey : key ∈ last) :
    Accounts taken trace key := by
  induction h with
  | nil _ => exact Or.inl hkey
  | @cons claimed result taken taken' last rest hrun _ ih =>
    rcases ih hkey with htaken | hfree | ⟨claim, new, hclaim, rfl⟩
    · rcases claim_cases hrun with ⟨rfl, rfl⟩ | ⟨new, rfl, -, -, rfl⟩
      · rcases List.mem_cons.mp htaken with rfl | htaken
        · exact Or.inr (Or.inl List.mem_cons_self)
        · exact Or.inl htaken
      · rcases List.mem_cons.mp htaken with rfl | htaken
        · exact Or.inr (Or.inr ⟨claimed, new, List.mem_cons_self, rfl⟩)
        · exact Or.inl htaken
    · exact Or.inr (Or.inl (List.mem_cons_of_mem _ hfree))
    · exact Or.inr (Or.inr ⟨claim, new, List.mem_cons_of_mem _ hclaim, rfl⟩)

/-- A claim leads to a new name only if something before it accounts for its key. -/
theorem reason (h : Claims taken (before ++ (key, some new) :: after) last) :
    Accounts taken before key := by
  obtain ⟨taken', hbefore, hafter⟩ := h.split
  cases hafter with
  | cons hrun _ =>
    rcases claim_cases hrun with ⟨hnone, -⟩ | ⟨_, -, hmem, -, -⟩
    · cases hnone
    · exact hbefore.accounts hmem

end Claims

/-! ### The claims of a file -/

/-- A table of new names with that of one more claim. -/
def noteClaim (renames : Dict String String) (claim : ClaimedKey) : Dict String String :=
  match claim.2 with
  | some new => renames.insert claim.1.name new
  | none => renames

/-- The claims of package-level names, and the table that they make. -/
theorem claimNames_traced (keys : List DeclKey) (renames : Dict String String)
    (taken : List DeclKey) :
    ∃ trace taken', (keys.foldlM claimInto renames).run taken =
        (trace.foldl noteClaim renames, taken') ∧
      Claims taken trace taken' ∧ trace.map Prod.fst = keys := by
  induction keys generalizing renames taken with
  | nil => exact ⟨[], taken, rfl, .nil taken, rfl⟩
  | cons key keys ih =>
    obtain ⟨result, taken', hclaim⟩ : ∃ result taken', key.claim.run taken = (result, taken') :=
      ⟨_, _, rfl⟩
    obtain ⟨trace, last, hrest, htrace, hkeys⟩ := ih (noteClaim renames (key, result)) taken'
    refine ⟨(key, result) :: trace, last, ?_, .cons hclaim htrace, congrArg (key :: ·) hkeys⟩
    have hinto : (claimInto renames key).run taken = (noteClaim renames (key, result), taken') := by
      rw [claimInto, run_bind_of_run hclaim]
      cases result <;> rfl
    rw [List.foldlM_cons, run_bind_of_run hinto, hrest, List.foldl_cons]

section Table

variable {trace : List ClaimedKey} {renames : Dict String String} {name : String}

theorem exists_find?_noteClaim (claim : ClaimedKey) (h : ∃ new, renames.find? name = some new) :
    ∃ new, (noteClaim renames claim).find? name = some new := by
  obtain ⟨key, _ | new⟩ := claim
  · exact h
  · by_cases hname : name = key.name
    · exact ⟨new, hname ▸ Dict.find?_insert_self renames name new⟩
    · obtain ⟨old, hold⟩ := h
      exact ⟨old, (Dict.find?_insert_of_ne renames new hname).trans hold⟩

/-- A claim that led to a new name gives its name a place in the table, which it keeps. -/
theorem exists_find?_foldl_noteClaim (trace : List ClaimedKey)
    (h : (∃ new, renames.find? name = some new) ∨
      ∃ key new, (key, some new) ∈ trace ∧ key.name = name) :
    ∃ new, (trace.foldl noteClaim renames).find? name = some new := by
  induction trace generalizing renames with
  | nil =>
    obtain hfound | ⟨_, _, hmem, -⟩ := h
    · exact hfound
    · cases hmem
  | cons claim trace ih =>
    rw [List.foldl_cons]
    refine ih ?_
    obtain hfound | ⟨key, new, hmem, hname⟩ := h
    · exact Or.inl (exists_find?_noteClaim claim hfound)
    · rcases List.mem_cons.mp hmem with rfl | hmem
      · exact Or.inl ⟨new, hname ▸ Dict.find?_insert_self renames key.name new⟩
      · exact Or.inr ⟨key, new, hmem, hname⟩

/-- What the table has for a name comes from a claim of the name. -/
theorem mem_of_find?_foldl_noteClaim {new : String}
    (h : (trace.foldl noteClaim renames).find? name = some new) :
    renames.find? name = some new ∨ ∃ key, (key, some new) ∈ trace ∧ key.name = name := by
  induction trace generalizing renames with
  | nil => exact Or.inl h
  | cons claim trace ih =>
    rcases ih h with hfound | ⟨key, hmem, hname⟩
    · obtain ⟨key, _ | made⟩ := claim
      · exact Or.inl hfound
      · by_cases hname : name = key.name
        · subst hname
          rw [noteClaim, Dict.find?_insert_self] at hfound
          cases hfound
          exact Or.inr ⟨key, List.mem_cons_self, rfl⟩
        · rw [noteClaim, Dict.find?_insert_of_ne renames made hname] at hfound
          exact Or.inl hfound
    · exact Or.inr ⟨key, List.mem_cons_of_mem _ hmem, hname⟩

/-- The table of some claims has a new name for exactly the names whose claims led to one. -/
theorem Claims.apply_ne_iff {taken last : List DeclKey} (h : Claims taken trace last) :
    Renames.apply (trace.foldl noteClaim Dict.empty).entries name ≠ name ↔
      ∃ key new, (key, some new) ∈ trace ∧ key.name = name := by
  change ((trace.foldl noteClaim Dict.empty).find? name).getD name ≠ name ↔ _
  constructor
  · intro hne
    cases hfound : (trace.foldl noteClaim Dict.empty).find? name with
    | none =>
      rw [hfound] at hne
      exact absurd rfl hne
    | some new =>
      rcases mem_of_find?_foldl_noteClaim hfound with hempty | ⟨key, hmem, hname⟩
      · cases hempty
      · exact ⟨key, new, hmem, hname⟩
  · rintro ⟨key, made, hmade, rfl⟩
    obtain ⟨new, hfound⟩ :
        ∃ new, (trace.foldl noteClaim Dict.empty).find? key.name = some new :=
      exists_find?_foldl_noteClaim trace (Or.inr ⟨key, made, hmade, rfl⟩)
    rcases mem_of_find?_foldl_noteClaim hfound with hempty | ⟨other, hmem, hname⟩
    · cases hempty
    · rw [hfound, Option.getD_some]
      exact hname ▸ (h.isNumbered hmem).ne

end Table

end PackageAtlas
