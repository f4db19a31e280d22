import PackageAtlas.Proofs.History.Places

/-!
The answers to patterns, one by one. Patterns that are asked for together find what each of them
finds alone, and whether some pattern cannot be answered is decided by the first that cannot; so
patterns that are known to have answers may be left out.
-/

set_option autoImplicit false
set_option relaxedAutoImplicit false

namespace PackageAtlas

namespace Discover

variable {site : Site} {α β : Type}

/-! ### Errors among results -/

def error? : Except LoadError α → Option LoadError
  | .error error => some error
  | .ok _ => none

theorem error?_eq_none_iff {x : Except LoadError α} : error? x = none ↔ ∃ a, x = .ok a := by
  cases x with
  | error error => exact ⟨fun h ↦ (by cases h), fun ⟨a, h⟩ ↦ (by cases h)⟩
  | ok a => exact ⟨fun _ ↦ ⟨a, rfl⟩, fun _ ↦ rfl⟩

theorem error?_bind_pure (x : Except LoadError α) (f : α → β) :
    error? (x >>= fun a ↦ pure (f a)) = error? x := by
  cases x <;> rfl

theorem bind_eq_ok_iff {x : Except LoadError α} {f : α → Except LoadError β} {b : β} :
    x >>= f = .ok b ↔ ∃ a, x = .ok a ∧ f a = .ok b := by
  cases x with
  | error error =>
    refine ⟨fun h ↦ (by cases h), ?_⟩
    rintro ⟨a, h, -⟩
    cases h
  | ok a =>
    refine ⟨fun h ↦ ⟨a, rfl, h⟩, ?_⟩
    rintro ⟨other, h, hb⟩
    cases h
    exact hb

theorem forall₂_of_mem {R S : α → β → Prop} {list : List α} {others : List β}
    (h : List.Forall₂ R list others) (hRS : ∀ a ∈ list, ∀ b ∈ others, R a b → S a b) :
    List.Forall₂ S list others := by
  induction h with
  | nil => exact .nil
  | cons hfirst _ ih =>
    exact .cons (hRS _ List.mem_cons_self _ List.mem_cons_self hfirst)
      (ih fun a ha b hb ↦ hRS a (List.mem_cons_of_mem _ ha) b (List.mem_cons_of_mem _ hb))

/-- Results one after the other are all there, or the first error is. -/
theorem mapM_eq_ok_iff {f : α → Except LoadError β} {list : List α} {found : List β} :
    list.mapM f = .ok found ↔ List.Forall₂ (fun a b ↦ f a = .ok b) list found := by
  induction list generalizing found with
  | nil =>
    rw [List.mapM_nil, List.forall₂_nil_left_iff]
    exact ⟨fun h ↦ (by cases h; rfl), fun h ↦ (by rw [h]; rfl)⟩
  | cons a rest ih =>
    rw [List.mapM_cons, List.forall₂_cons_left_iff]
    cases hfirst : f a with
    | error error =>
      refine ⟨fun h ↦ (by cases h), ?_⟩
      rintro ⟨b, others, h, -⟩
      cases h
    | ok b =>
      cases hrest : rest.mapM f with
      | error error =>
        refine ⟨fun h ↦ (by cases h), ?_⟩
        rintro ⟨c, others, -, hothers, -⟩
        rw [ih.mpr hothers] at hrest
        cases hrest
      | ok others =>
        constructor
        · intro h
          cases h
          exact ⟨b, others, rfl, ih.mp hrest, rfl⟩
        · rintro ⟨c, more, hc, hmore, rfl⟩
          cases hc
          rw [ih.mpr hmore] at hrest
          cases hrest
          rfl

theorem error?_mapM (f : α → Except LoadError β) (list : List α) :
    error? (list.mapM f) = list.findSome? fun a ↦ error? (f a) := by
  induction list with
  | nil => rfl
  | cons a rest ih =>
    rw [List.mapM_cons, List.findSome?_cons, ← ih]
    cases f a with
    | error error => rfl
    | ok b => cases rest.mapM f <;> rfl

/-- What has no error may be left out. -/
theorem findSome?_filter_congr {f : α → Option β} {p q : α → Bool} {list : List α}
    (hq : ∀ a ∈ list, q a = true → p a = true)
    (hnone : ∀ a ∈ list, p a = true → q a = false → f a = none) :
    (list.filter q).findSome? f = (list.filter p).findSome? f := by
  induction list with
  | nil => rfl
  | cons a rest ih =>
    have hrest := ih (fun b hb ↦ hq b (List.mem_cons_of_mem a hb))
      fun b hb ↦ hnone b (List.mem_cons_of_mem a hb)
    rw [List.filter_cons, List.filter_cons]
    cases hqa : q a with
    | true =>
      rw [if_pos rfl, if_pos (hq a List.mem_cons_self hqa), List.findSome?_cons,
        List.findSome?_cons, hrest]
    | false =>
      rw [if_neg Bool.false_ne_true]
      cases hpa : p a with
      | false => rw [if_neg Bool.false_ne_true, hrest]
      | true =>
        rw [if_pos rfl, List.findSome?_cons, hnone a List.mem_cons_self hpa hqa, hrest]

theorem findSome?_filter {f : α → Option β} {q : α → Bool} {list : List α}
    (hnone : ∀ a ∈ list, q a = false → f a = none) :
    (list.filter q).findSome? f = list.findSome? f := by
  have h := findSome?_filter_congr (p := fun _ ↦ true) (fun _ _ _ ↦ rfl)
    fun a ha _ ↦ hnone a ha
  rw [h, List.filter_eq_self.mpr fun _ _ ↦ rfl]

/-! ### Single answers -/

/-- The matcher of a pattern that is walked for below the roots. -/
def treeMatcher? (pattern : String) : Option PatternMatcher :=
  match Pattern.parse pattern with
  | .tree matcher => some matcher
  | _ => none

/-- What a tree finds when it is walked alone. -/
def treeAnswer (site : Site) (matcher : PatternMatcher) : Except LoadError (List String) := do
  let ids ← ((places site).filter (matcher.accepts ·.name)).mapM fun dir ↦
    site.outcome dir.dir dir.name
  return ids.flatten

/-- What a pattern finds when it is asked for alone. -/
def answer (site : Site) (pattern : String) : Except LoadError (List String) := do
  match ← ownAnswer site pattern with
  | .ok ids => return ids
  | .error matcher => treeAnswer site matcher

section Parsed

variable {pattern path : String} {variant : Variant} {matcher : PatternMatcher}

theorem ownAnswer_of_exact (h : Pattern.parse pattern = .exact path variant) :
    ownAnswer site pattern =
      exactAnswer site path variant >>= fun identity ↦ pure (.ok [identity]) := by
  unfold ownAnswer
  rw [h]

theorem ownAnswer_of_locals (h : Pattern.parse pattern = .locals matcher) :
    ownAnswer site pattern = localAnswer site matcher >>= fun ids ↦ pure (.ok ids) := by
  unfold ownAnswer
  rw [h]

theorem ownAnswer_of_tree (h : Pattern.parse pattern = .tree matcher) :
    ownAnswer site pattern = .ok (.error matcher) := by
  unfold ownAnswer
  rw [h]
  rfl

end Parsed

theorem matcher?_of_ownAnswer {pattern : String} {own : Except PatternMatcher (List String)}
    (h : ownAnswer site pattern = .ok own) : matcher? own = treeMatcher? pattern := by
  unfold treeMatcher?
  cases hparse : Pattern.parse pattern with
  | exact path variant =>
    rw [ownAnswer_of_exact hparse] at h
    cases hanswer : exactAnswer site path variant with
    | error error =>
      rw [hanswer] at h
      cases h
    | ok identity =>
      rw [hanswer] at h
      cases h
      rfl
  | locals matcher =>
    rw [ownAnswer_of_locals hparse] at h
    cases hanswer : localAnswer site matcher with
    | error error =>
      rw [hanswer] at h
      cases h
    | ok ids =>
      rw [hanswer] at h
      cases h
      rfl
  | tree matcher =>
    rw [ownAnswer_of_tree hparse] at h
    cases h
    rfl

theorem filterMap_matcher? {wanted : List String} {own : List (Except PatternMatcher (List String))}
    (h : wanted.mapM (ownAnswer site) = .ok own) :
    own.filterMap matcher? = wanted.filterMap treeMatcher? := by
  have hall := mapM_eq_ok_iff.mp h
  clear h
  induction hall with
  | nil => rfl
  | cons hfirst _ ih => rw [List.filterMap_cons, List.filterMap_cons, ih, matcher?_of_ownAnswer hfirst]

/-! ### Failures -/

/-- The directories that some trees ask for. -/
def isAccepted (wanted : List String) (dir : NamedDir) : Bool :=
  (wanted.filterMap treeMatcher?).any (·.accepts dir.name)

/-- Why patterns cannot be answered: the first that fails by itself, or the first directory that
the trees ask for and that cannot be parsed. -/
def failure? (site : Site) (wanted : List String) : Option LoadError :=
  (wanted.findSome? fun pattern ↦ error? (ownAnswer site pattern)) <|>
    ((places site).filter (isAccepted wanted)).findSome? fun dir ↦
      error? (site.outcome dir.dir dir.name)

theorem error?_answers (wanted : List String) :
    error? (answers site wanted) = failure? site wanted := by
  unfold answers failure?
  rw [← error?_mapM]
  cases hown : wanted.mapM (ownAnswer site) with
  | error error => rfl
  | ok own =>
    change error? (treeAnswers site (own.filterMap matcher?) >>= fun found ↦
      pure (own.map (groupOf found))) = _
    rw [error?_bind_pure, filterMap_matcher? hown, treeAnswers, error?_mapM, treePlaces_eq]
    simp only [error?_bind_pure]
    rfl

theorem answer_of_treeMatcher? {pattern : String} {matcher : PatternMatcher}
    (h : treeMatcher? pattern = some matcher) : answer site pattern = treeAnswer site matcher := by
  unfold treeMatcher? at h
  cases hparse : Pattern.parse pattern with
  | tree other =>
    rw [hparse] at h
    cases h
    unfold answer
    rw [ownAnswer_of_tree hparse]
    rfl
  | exact path variant =>
    rw [hparse] at h
    cases h
  | locals other =>
    rw [hparse] at h
    cases h

theorem error?_ownAnswer {pattern : String} {ids : List String}
    (h : answer site pattern = .ok ids) : error? (ownAnswer site pattern) = none := by
  unfold answer at h
  cases hown : ownAnswer site pattern with
  | error error =>
    rw [hown] at h
    cases h
  | ok own => rfl

/-- Patterns that have answers may be left out of those that decide whether there is a failure. -/
theorem failure?_filter {wanted : List String} {keep : String → Bool}
    (h : ∀ pattern ∈ wanted, keep pattern = false → ∃ ids, answer site pattern = .ok ids) :
    failure? site (wanted.filter keep) = failure? site wanted := by
  have hown : ((wanted.filter keep).findSome? fun pattern ↦ error? (ownAnswer site pattern)) =
      wanted.findSome? fun pattern ↦ error? (ownAnswer site pattern) := by
    refine findSome?_filter fun pattern hpattern hkeep ↦ ?_
    obtain ⟨ids, hids⟩ := h pattern hpattern hkeep
    exact error?_ownAnswer hids
  have hplaces : (((places site).filter (isAccepted (wanted.filter keep))).findSome? fun dir ↦
        error? (site.outcome dir.dir dir.name)) =
      ((places site).filter (isAccepted wanted)).findSome? fun dir ↦
        error? (site.outcome dir.dir dir.name) := by
    refine findSome?_filter_congr (fun dir _ haccepted ↦ ?_) fun dir hdir haccepted hnot ↦ ?_
    · obtain ⟨matcher, hmatcher, haccepts⟩ := List.any_eq_true.mp haccepted
      obtain ⟨pattern, hpattern, hparse⟩ := List.mem_filterMap.mp hmatcher
      exact List.any_eq_true.mpr ⟨matcher, List.mem_filterMap.mpr
        ⟨pattern, (List.mem_filter.mp hpattern).1, hparse⟩, haccepts⟩
    · obtain ⟨matcher, hmatcher, haccepts⟩ := List.any_eq_true.mp haccepted
      obtain ⟨pattern, hpattern, hparse⟩ := List.mem_filterMap.mp hmatcher
      have hkeep : keep pattern = false := by
        rw [← Bool.not_eq_true]
        intro hkept
        have hin : isAccepted (wanted.filter keep) dir = true :=
          List.any_eq_true.mpr ⟨matcher, List.mem_filterMap.mpr
            ⟨pattern, List.mem_filter.mpr ⟨hpattern, hkept⟩, hparse⟩, haccepts⟩
        rw [hin] at hnot
        cases hnot
      obtain ⟨ids, hids⟩ := h pattern hpattern hkeep
      rw [answer_of_treeMatcher? hparse] at hids
      have hnone : error? (treeAnswer site matcher) = none := error?_eq_none_iff.mpr ⟨ids, hids⟩
      rw [treeAnswer, error?_bind_pure, error?_mapM, List.findSome?_eq_none_iff] at hnone
      exact hnone dir (List.mem_filter.mpr ⟨hdir, haccepts⟩)
  unfold failure?
  rw [hown, hplaces]

/-- What a tree finds alone is what it finds among the directories of several trees. -/
theorem treeAnswer_eq_ok {matchers : List PatternMatcher} {matcher : PatternMatcher}
    (hmatcher : matcher ∈ matchers) {found : List (String × List String)}
    (h : List.Forall₂ (fun dir entry ↦
        (do return (dir.name, ← site.outcome dir.dir dir.name) : Except LoadError _) = .ok entry)
      ((places site).filter fun dir ↦ matchers.any (·.accepts dir.name)) found) :
    treeAnswer site matcher = .ok (groupOf found (.error matcher)) := by
  have hentries : List.Forall₂ (fun dir entry ↦
        entry.1 = dir.name ∧ site.outcome dir.dir dir.name = .ok entry.2)
      ((places site).filter fun dir ↦ matchers.any (·.accepts dir.name)) found := by
    refine h.imp fun dir entry hentry ↦ ?_
    obtain ⟨ids, hids, hpair⟩ := bind_eq_ok_iff.mp hentry
    cases hpair
    exact ⟨rfl, hids⟩
  have hown := Site.forall₂_filter (p := (matcher.accepts ·.name)) (q := (matcher.accepts ·.1))
    (fun dir entry hentry ↦ by rw [hentry.1]) hentries
  have hplaces : ((places site).filter fun dir ↦ matchers.any (·.accepts dir.name)).filter
      (matcher.accepts ·.name) = (places site).filter (matcher.accepts ·.name) := by
    rw [List.filter_filter]
    refine List.filter_congr fun dir _ ↦ ?_
    rw [Bool.and_eq_left_iff_imp]
    exact fun haccepts ↦ List.any_eq_true.mpr ⟨matcher, hmatcher, haccepts⟩
  rw [hplaces] at hown
  have hall : ((places site).filter (matcher.accepts ·.name)).mapM
      (fun dir ↦ site.outcome dir.dir dir.name) =
        .ok ((found.filter (matcher.accepts ·.1)).map (·.2)) :=
    mapM_eq_ok_iff.mpr (List.forall₂_map_right_iff.mpr (hown.imp fun _ _ hentry ↦ hentry.2))
  unfold treeAnswer
  rw [hall]
  rfl

/-- Patterns that are asked for together find what each of them finds alone. -/
theorem forall₂_answer {wanted : List String} {groups : List (List String)}
    (h : answers site wanted = .ok groups) :
    List.Forall₂ (fun pattern group ↦ answer site pattern = .ok group) wanted groups := by
  obtain ⟨own, hown, hrest⟩ := bind_eq_ok_iff.mp h
  obtain ⟨found, hfound, hgroups⟩ := bind_eq_ok_iff.mp hrest
  cases hgroups
  refine List.forall₂_map_right_iff.mpr (forall₂_of_mem (mapM_eq_ok_iff.mp hown) ?_)
  intro pattern _ one hone hanswer
  unfold answer
  rw [hanswer]
  cases one with
  | ok ids => rfl
  | error matcher =>
    have hmatchers : matcher ∈ wanted.filterMap treeMatcher? := by
      rw [← filterMap_matcher? hown]
      exact List.mem_filterMap.mpr ⟨_, hone, rfl⟩
    rw [filterMap_matcher? hown, treeAnswers, treePlaces_eq] at hfound
    exact treeAnswer_eq_ok hmatchers (mapM_eq_ok_iff.mp hfound)

/-- Why patterns are refused before anything is checked: a failure, or the first pattern that
nothing is found for. -/
def refusal? (site : Site) (wanted : List String) : Option LoadError :=
  failure? site wanted <|> wanted.findSome? fun pattern ↦
    match answer site pattern with
    | .ok [] => some (.noMatch pattern)
    | _ => none

theorem refusal?_nil : refusal? site [] = none := by
  have hplaces : (places site).filter (isAccepted []) = [] :=
    List.filter_eq_nil_iff.mpr fun _ _ ↦ Bool.false_ne_true
  unfold refusal? failure?
  rw [hplaces]
  rfl

theorem refusal?_filter {wanted : List String} {keep : String → Bool}
    (h : ∀ pattern ∈ wanted, keep pattern = false →
      ∃ ids, answer site pattern = .ok ids ∧ ids ≠ []) :
    refusal? site (wanted.filter keep) = refusal? site wanted := by
  unfold refusal?
  rw [failure?_filter fun pattern hpattern hkeep ↦
    (h pattern hpattern hkeep).imp fun ids hids ↦ hids.1]
  refine congrArg _ (funext fun _ ↦ findSome?_filter fun pattern hpattern hkeep ↦ ?_)
  obtain ⟨ids, hids, hne⟩ := h pattern hpattern hkeep
  rw [hids]
  cases ids with
  | nil => exact absurd rfl hne
  | cons identity rest => rfl

end Discover

end PackageAtlas
