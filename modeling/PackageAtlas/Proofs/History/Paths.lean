import PackageAtlas.Project.FileTree

/-!
Paths and the names that lead below them. A name that is one part of a path stays one part when it
is joined to a directory, names joined one after the other are joined with slashes between them, and
slashes at the end of a path lead nowhere.
-/

set_option autoImplicit false
set_option relaxedAutoImplicit false

namespace PackageAtlas

namespace Text

/-! ### Splitting -/

theorem splitAt_ne_nil {α : Type} (test : α → Bool) (text : List α) : splitAt test text ≠ [] := by
  cases text with
  | nil => exact List.cons_ne_nil _ _
  | cons a rest =>
    unfold splitAt
    split
    · exact List.cons_ne_nil _ _
    · split <;> exact List.cons_ne_nil _ _

theorem splitOn_ne_nil (separator : Char) (text : List Char) : splitOn separator text ≠ [] :=
  splitAt_ne_nil _ text

theorem splitAt_cons {α : Type} {test : α → Bool} {a : α} {rest part : List α}
    {parts : List (List α)} (h : splitAt test rest = part :: parts) :
    splitAt test (a :: rest) = if test a then [] :: part :: parts else (a :: part) :: parts := by
  rw [splitAt, h]

/-- A separator splits what stands before it from what follows. -/
theorem splitAt_append_cons {α : Type} {test : α → Bool} {a : α} (ha : test a = true)
    (before after : List α) :
    splitAt test (before ++ a :: after) = splitAt test before ++ splitAt test after := by
  obtain ⟨part, parts, hafter⟩ := List.exists_cons_of_ne_nil (splitAt_ne_nil test after)
  induction before with
  | nil =>
    rw [List.nil_append, splitAt_cons hafter, if_pos ha, hafter]
    rfl
  | cons b before ih =>
    obtain ⟨first, rest, hbefore⟩ := List.exists_cons_of_ne_nil (splitAt_ne_nil test before)
    rw [hbefore] at ih
    rw [List.cons_append, splitAt_cons ih, splitAt_cons hbefore]
    by_cases hb : test b = true
    · rw [if_pos hb, if_pos hb]
      rfl
    · rw [if_neg hb, if_neg hb]
      rfl

theorem splitAt_of_forall {α : Type} {test : α → Bool} {text : List α}
    (h : ∀ a ∈ text, test a = false) : splitAt test text = [text] := by
  induction text with
  | nil => rfl
  | cons a rest ih =>
    obtain ⟨ha, hrest⟩ := List.forall_mem_cons.1 h
    rw [splitAt_cons (ih hrest), if_neg (Bool.eq_false_iff.1 ha)]

theorem splitOn_append_cons (separator : Char) (before after : List Char) :
    splitOn separator (before ++ separator :: after) =
      splitOn separator before ++ splitOn separator after := by
  refine splitAt_append_cons ?_ before after
  exact beq_self_eq_true separator

theorem splitOn_of_not_mem {separator : Char} {text : List Char} (h : separator ∉ text) :
    splitOn separator text = [text] :=
  splitAt_of_forall fun _ hc ↦ beq_eq_false_iff_ne.2 fun heq ↦ h (heq ▸ hc)

/-- A character is the separator or in a part. -/
theorem mem_splitOn {separator c : Char} {text : List Char} (hmem : c ∈ text)
    (hc : c ≠ separator) : ∃ part ∈ splitOn separator text, c ∈ part := by
  unfold splitOn
  induction text with
  | nil => cases hmem
  | cons d rest ih =>
    obtain ⟨part, parts, hrest⟩ := List.exists_cons_of_ne_nil
      (splitAt_ne_nil (· == separator) rest)
    rw [hrest] at ih
    rw [splitAt_cons hrest]
    by_cases hd : (d == separator) = true
    · rw [if_pos hd]
      rcases List.mem_cons.mp hmem with rfl | hlater
      · exact absurd (beq_iff_eq.mp hd) hc
      · obtain ⟨found, hfound, hin⟩ := ih hlater
        exact ⟨found, List.mem_cons_of_mem _ hfound, hin⟩
    · rw [if_neg hd]
      rcases List.mem_cons.mp hmem with rfl | hlater
      · exact ⟨c :: part, List.mem_cons_self, List.mem_cons_self⟩
      · obtain ⟨found, hfound, hin⟩ := ih hlater
        rcases List.mem_cons.mp hfound with rfl | hfound
        · exact ⟨d :: found, List.mem_cons_self, List.mem_cons_of_mem d hin⟩
        · exact ⟨found, List.mem_cons_of_mem _ hfound, hin⟩

end Text

namespace Path

/-! ### Joined paths -/

/-- A path that does not start at the root. -/
def IsRelative (path : String) : Prop := ∀ rest, path.toList ≠ '/' :: rest

theorem startsWith_slash_iff (path : String) :
    path.startsWith "/" = true ↔ ∃ rest, path.toList = '/' :: rest := by
  rw [String.startsWith_string_iff]
  constructor
  · rintro ⟨rest, h⟩
    exact ⟨rest, h.symm⟩
  · rintro ⟨rest, h⟩
    exact ⟨rest, h.symm⟩

theorem endsWith_slash_iff (path : String) :
    path.endsWith "/" = true ↔ ∃ start, path.toList = start ++ ['/'] := by
  rw [String.endsWith_eq_endsWith_toSlice, String.Slice.endsWith_string_iff, String.copy_toSlice]
  constructor
  · rintro ⟨start, h⟩
    exact ⟨start, h.symm⟩
  · rintro ⟨start, h⟩
    exact ⟨start, h.symm⟩

theorem isRelative_iff (path : String) : IsRelative path ↔ path.startsWith "/" = false := by
  rw [← Bool.not_eq_true, startsWith_slash_iff]
  exact not_exists.symm

theorem join_of_not_isRelative {path : String} (h : ¬ IsRelative path) (base : String) :
    join base path = path := by
  rw [isRelative_iff, Bool.not_eq_false] at h
  rw [join, h, Bool.true_or, if_pos rfl]

theorem join_empty (path : String) : join "" path = path := by
  rw [join]
  exact if_pos (Bool.or_true _)

theorem join_of_endsWith {base path : String} (hpath : IsRelative path)
    (hbase : base.endsWith "/" = true) : join base path = base ++ path := by
  have hne : base.isEmpty = false := by
    obtain ⟨start, h⟩ := (endsWith_slash_iff base).mp hbase
    rw [← Bool.not_eq_true, String.isEmpty_iff]
    rintro rfl
    exact List.append_ne_nil_of_right_ne_nil start (List.cons_ne_nil _ _) h.symm
  rw [join, (isRelative_iff path).mp hpath, hne, hbase]
  rfl

theorem join_of_not_endsWith {base path : String} (hpath : IsRelative path) (hne : base ≠ "")
    (hbase : base.endsWith "/" = false) : join base path = base ++ "/" ++ path := by
  have hempty : base.isEmpty = false := by
    rw [← Bool.not_eq_true, String.isEmpty_iff]
    exact hne
  rw [join, (isRelative_iff path).mp hpath, hempty, hbase]
  rfl

/-- The characters of a joined path: there is one slash or there are none between the two. -/
theorem toList_join {base path : String} (hpath : IsRelative path) (hne : base ≠ "") :
    ∃ start, (join base path).toList = start ++ '/' :: path.toList ∧
      (base.toList = start ∨ base.toList = start ++ ['/']) := by
  by_cases hbase : base.endsWith "/" = true
  · obtain ⟨start, h⟩ := (endsWith_slash_iff base).mp hbase
    refine ⟨start, ?_, Or.inr h⟩
    rw [join_of_endsWith hpath hbase, String.toList_append, h, List.append_assoc]
    rfl
  · refine ⟨base.toList, ?_, Or.inl rfl⟩
    rw [join_of_not_endsWith hpath hne ((Bool.not_eq_true _).mp hbase),
      String.toList_append, String.toList_append, List.append_assoc]
    rfl

theorem join_ne_empty {base path : String} (h : base ≠ "" ∨ path ≠ "") : join base path ≠ "" := by
  intro hempty
  by_cases hpath : IsRelative path
  · by_cases hbase : base = ""
    · rw [hbase, join_empty] at hempty
      exact h.elim (fun hne ↦ hne hbase) fun hne ↦ hne hempty
    · obtain ⟨start, hstart, -⟩ := toList_join hpath hbase
      rw [hempty] at hstart
      exact List.append_ne_nil_of_right_ne_nil start (List.cons_ne_nil _ _) hstart.symm
  · rw [join_of_not_isRelative hpath] at hempty
    rw [hempty] at hpath
    exact hpath fun rest hrest ↦ by cases hrest

/-- A joined path has all characters of what is joined. -/
theorem mem_join_right {c : Char} {path : String} (base : String) (h : c ∈ path.toList) :
    c ∈ (join base path).toList := by
  unfold join
  split
  · exact h
  · split
    · rw [String.toList_append]
      exact List.mem_append_right _ h
    · rw [String.toList_append]
      exact List.mem_append_right _ h

/-! ### Parts -/

/-- The names that a text between slashes leads through. -/
def namesIn (text : List Char) : List String :=
  ((Text.splitOn '/' text).map String.ofList).filter fun name ↦ name != "" && name != "."

/-- The parts of what stands before the first slash and further. -/
def lead (start : List Char) : List String :=
  if start = [] then ["/"] else parts (String.ofList start)

theorem parts_of_slash {path : String} {start rest : List Char}
    (h : path.toList = start ++ '/' :: rest) : parts path = lead start ++ namesIn rest := by
  obtain ⟨first, others, hstart⟩ := List.exists_cons_of_ne_nil (Text.splitOn_ne_nil '/' start)
  have hsplit : Text.splitOn '/' path.toList = first :: (others ++ Text.splitOn '/' rest) := by
    rw [h, Text.splitOn_append_cons, hstart]
    rfl
  have hne : path.isEmpty = false := by
    rw [← Bool.not_eq_true, String.isEmpty_iff]
    rintro rfl
    exact List.append_ne_nil_of_right_ne_nil start (List.cons_ne_nil _ _) h.symm
  unfold lead
  by_cases hnil : start = []
  · rw [hnil] at hstart
    cases hstart
    rw [if_pos hnil, parts, hsplit]
    simp [namesIn, hne]
  · have hlead : (String.ofList start).isEmpty = false := by
      rw [← Bool.not_eq_true, String.isEmpty_iff]
      intro heq
      rw [← String.toList_ofList (l := start), heq] at hnil
      exact hnil rfl
    rw [if_neg hnil, parts, parts, hsplit, String.toList_ofList, hstart]
    by_cases hfirst : String.ofList first = ""
    · simp [hfirst, hne, hlead, namesIn]
    · simp [namesIn]

/-- What stands between slashes and leads somewhere is a part. -/
theorem mem_parts {path : String} {text : List Char} (htext : text ∈ Text.splitOn '/' path.toList)
    (hne : String.ofList text ≠ "") (hdot : String.ofList text ≠ ".") :
    String.ofList text ∈ parts path := by
  have hkept : ∀ rest : List (List Char), text ∈ rest → String.ofList text ∈
      (rest.map String.ofList).filter fun name ↦ name != "" && name != "." := by
    intro rest hrest
    refine List.mem_filter.mpr ⟨List.mem_map_of_mem hrest, ?_⟩
    rw [Bool.and_eq_true, bne_iff_ne, bne_iff_ne]
    exact ⟨hne, hdot⟩
  unfold parts
  cases hsplit : Text.splitOn '/' path.toList with
  | nil => exact absurd hsplit (Text.splitOn_ne_nil _ _)
  | cons first rest =>
    rw [hsplit] at htext
    have hempty : path.isEmpty = false := by
      rw [← Bool.not_eq_true, String.isEmpty_iff]
      rintro rfl
      cases hsplit
      rcases List.mem_singleton.mp htext with rfl
      exact hne rfl
    by_cases hfirst : String.ofList first = ""
    · rcases List.mem_cons.mp htext with rfl | hlater
      · exact absurd hfirst hne
      · simpa [hfirst, hempty] using Or.inr (hkept rest hlater)
    · rcases List.mem_cons.mp htext with rfl | hlater
      · simp [hfirst]
      · simpa [hfirst] using Or.inr (hkept rest hlater)

theorem parts_join {base path : String} (hpath : IsRelative path) (hne : base ≠ "") :
    parts (join base path) = parts base ++ namesIn path.toList := by
  obtain ⟨start, hjoin, hbase | hbase⟩ := toList_join hpath hne
  · have hlead : lead start = parts base := by
      unfold lead
      rw [← hbase, String.ofList_toList]
      exact if_neg fun hnil ↦ hne (String.toList_eq_nil_iff.mp hnil)
    rw [parts_of_slash hjoin, hlead]
  · have hlead : parts base = lead start := by
      rw [parts_of_slash hbase]
      exact List.append_nil _
    rw [parts_of_slash hjoin, hlead]

/-- Paths of the same directory stay so when the same is joined to them. -/
theorem parts_join_congr {base other : String} (hsame : parts base = parts other) (hne : base ≠ "")
    (hother : other ≠ "") (path : String) : parts (join base path) = parts (join other path) := by
  by_cases hpath : IsRelative path
  · rw [parts_join hpath hne, parts_join hpath hother, hsame]
  · rw [join_of_not_isRelative hpath, join_of_not_isRelative hpath]

/-- Slashes at the end lead nowhere. -/
theorem parts_append_slashes {start : List Char} (hne : start ≠ []) (count : Nat) :
    parts (String.ofList (start ++ List.replicate count '/')) = parts (String.ofList start) := by
  induction count with
  | zero => rw [List.replicate_zero, List.append_nil]
  | succ count ih =>
    have hslash : (String.ofList (start ++ List.replicate (count + 1) '/')).toList =
        (start ++ List.replicate count '/') ++ '/' :: [] := by
      rw [String.toList_ofList, List.replicate_succ', List.append_assoc]
    rw [parts_of_slash hslash, ← ih]
    unfold lead
    rw [if_neg (List.append_ne_nil_of_left_ne_nil hne _)]
    exact List.append_nil _

/-! ### Names -/

/-- A text that is one part of a path, and leads neither nowhere nor back. -/
structure IsName (name : String) : Prop where
  ne_empty : name ≠ ""
  ne_dot : name ≠ "."
  ne_dots : name ≠ ".."
  no_slash : '/' ∉ name.toList

namespace IsName

variable {name : String}

theorem isRelative (h : IsName name) : IsRelative name := by
  intro rest hrest
  exact h.no_slash (hrest ▸ List.mem_cons_self)

theorem namesIn (h : IsName name) : Path.namesIn name.toList = [name] := by
  unfold Path.namesIn
  rw [Text.splitOn_of_not_mem h.no_slash]
  simp [h.ne_empty, h.ne_dot]

theorem endsWith_slash (h : IsName name) (start : String) :
    (start ++ name).endsWith "/" = false := by
  rw [← Bool.not_eq_true, endsWith_slash_iff]
  rintro ⟨before, hbefore⟩
  have hlast : name.toList ≠ [] := by
    intro hnil
    exact h.ne_empty (String.toList_eq_nil_iff.mp hnil)
  have hmem : '/' = name.toList.getLast hlast := by
    have := congrArg List.getLast? hbefore
    rw [String.toList_append, List.getLast?_append, List.getLast?_concat,
      List.getLast?_eq_some_getLast hlast, Option.some_or] at this
    exact (Option.some.inj this).symm
  exact h.no_slash (hmem ▸ List.getLast_mem hlast)

end IsName

theorem slashed_cons {name : String} {names : List String} (h : names ≠ []) :
    slashed (name :: names) = name ++ "/" ++ slashed names :=
  String.intercalate_cons_of_ne_nil h

theorem toList_slashed_cons {name : String} {names : List String} (h : names ≠ []) :
    (slashed (name :: names)).toList = name.toList ++ '/' :: (slashed names).toList := by
  rw [slashed_cons h, String.toList_append, String.toList_append, List.append_assoc]
  rfl

theorem slashed_singleton (name : String) : slashed [name] = name :=
  String.intercalate_singleton

/-- Names go on after a slash. -/
theorem toList_slashed_of_prefix {above names : List String} (h : above <+: names)
    (hne : above ≠ []) : ∃ rest, (slashed names).toList = (slashed above).toList ++ rest ∧
      (rest = [] ∨ ∃ more, rest = '/' :: more) := by
  obtain ⟨later, rfl⟩ := h
  by_cases hlater : later = []
  · exact ⟨[], by rw [hlater, List.append_nil, List.append_nil], Or.inl rfl⟩
  · refine ⟨'/' :: (slashed later).toList, ?_, Or.inr ⟨_, rfl⟩⟩
    rw [slashed, String.intercalate_append_of_ne_nil hne hlater, String.toList_append,
      String.toList_append, List.append_assoc]
    rfl

section Slashed

variable {names : List String} (hnames : ∀ name ∈ names, IsName name)
include hnames

theorem namesIn_slashed : names ≠ [] → namesIn (slashed names).toList = names := by
  induction names with
  | nil => exact fun hne ↦ absurd rfl hne
  | cons name rest ih =>
    intro _
    have hname := hnames name List.mem_cons_self
    by_cases hrest : rest = []
    · rw [hrest, slashed_singleton, hname.namesIn]
    · have hlater := ih (fun other hother ↦ hnames other (List.mem_cons_of_mem name hother)) hrest
      have hfirst := hname.namesIn
      unfold namesIn at hlater hfirst ⊢
      rw [toList_slashed_cons hrest, Text.splitOn_append_cons, List.map_append, List.filter_append,
        hlater, hfirst]
      rfl

theorem isRelative_slashed : IsRelative (slashed names) := by
  cases names with
  | nil => exact fun rest h ↦ by cases h
  | cons name rest =>
    have hname := hnames name List.mem_cons_self
    by_cases hrest : rest = []
    · rw [hrest, slashed_singleton]
      exact hname.isRelative
    · intro after hafter
      rw [toList_slashed_cons hrest] at hafter
      cases hchars : name.toList with
      | nil => exact hname.ne_empty (String.toList_eq_nil_iff.mp hchars)
      | cons c chars =>
        rw [hchars] at hafter
        injection hafter with hc
        exact hname.no_slash (hchars ▸ hc ▸ List.mem_cons_self)

end Slashed

/-- Names joined one after the other are joined with slashes between them. -/
theorem foldl_join {base : String} (hne : base ≠ "") {names : List String}
    (hnames : ∀ name ∈ names, IsName name) (hsome : names ≠ []) :
    names.foldl join base = join base (slashed names) := by
  induction names generalizing base with
  | nil => exact absurd rfl hsome
  | cons name rest ih =>
    have hname := hnames name List.mem_cons_self
    have hrestNames : ∀ other ∈ rest, IsName other :=
      fun other hother ↦ hnames other (List.mem_cons_of_mem name hother)
    by_cases hrest : rest = []
    · rw [hrest, slashed_singleton]
      rfl
    · have hjoined : ∀ start : String, join (start ++ name) (slashed rest) =
          start ++ name ++ "/" ++ slashed rest := by
        intro start
        refine join_of_not_endsWith (isRelative_slashed hrestNames) ?_ (hname.endsWith_slash start)
        intro hempty
        exact hname.ne_empty (String.append_eq_empty_iff.mp hempty).2
      rw [List.foldl_cons, ih (join_ne_empty (Or.inl hne)) hrestNames hrest, slashed_cons hrest]
      have hrelative : IsRelative (name ++ "/" ++ slashed rest) := by
        rw [← slashed_cons hrest]
        exact isRelative_slashed hnames
      by_cases hbase : base.endsWith "/" = true
      · rw [join_of_endsWith hname.isRelative hbase, join_of_endsWith hrelative hbase, hjoined]
        simp only [String.append_assoc]
      · have hbase := (Bool.not_eq_true _).mp hbase
        rw [join_of_not_endsWith hname.isRelative hne hbase,
          join_of_not_endsWith hrelative hne hbase, hjoined]
        simp only [String.append_assoc]

/-- A relative path goes on below a directory as it goes on below the path that ends with it. -/
theorem join_join {base start path : String} (hstart : IsRelative start)
    (hslash : start.endsWith "/" = true) (hpath : IsRelative path) :
    join (join base start) path = join base (start ++ path) := by
  have hrelative : IsRelative (start ++ path) := by
    obtain ⟨before, hbefore⟩ := (endsWith_slash_iff start).mp hslash
    intro rest hrest
    rw [String.toList_append, hbefore, List.append_assoc] at hrest
    cases before with
    | nil => exact hstart [] hbefore
    | cons c before =>
      injection hrest with hc
      exact hstart (before ++ ['/']) (hc ▸ hbefore)
  have hends : ∀ prefixed : String, (prefixed ++ start).endsWith "/" = true := by
    intro prefixed
    obtain ⟨before, hbefore⟩ := (endsWith_slash_iff start).mp hslash
    refine (endsWith_slash_iff _).mpr ⟨prefixed.toList ++ before, ?_⟩
    rw [String.toList_append, hbefore, List.append_assoc]
  by_cases hempty : base = ""
  · rw [hempty, join_empty, join_empty, join_of_endsWith hpath hslash]
  · by_cases hbase : base.endsWith "/" = true
    · rw [join_of_endsWith hstart hbase, join_of_endsWith hrelative hbase,
        join_of_endsWith hpath (hends base), String.append_assoc]
    · have hbase := (Bool.not_eq_true _).mp hbase
      rw [join_of_not_endsWith hstart hempty hbase, join_of_not_endsWith hrelative hempty hbase,
        join_of_endsWith hpath (hends _), String.append_assoc]

end Path

end PackageAtlas
