import Mathlib.Data.List.Sort
import Mathlib.Order.Bounds.Basic
import PackageAtlas.Load.Resolved
import PackageAtlas.Proofs.Naming.Marks

/-!
Lifetimes and what they are gathered from. A check records names in the order in which it comes to
them, which is not that of the text; the mentions of one symbol make its record, whatever stands
between them. So the index has one record for each symbol that is mentioned, with all of its uses and
the least span around its mentions, and the objects of a package are the symbols of these records and
those that have no name, each once and in order (`ResolvedPackage.lifetimes_gathered`).
-/

set_option autoImplicit false
set_option relaxedAutoImplicit false

namespace PackageAtlas

/-! ### Tables -/

namespace Dict

variable {κ α : Type} [DecidableEq κ]

theorem lookup_eq_some_iff {entries : List (κ × α)} (h : (entries.map (·.1)).Nodup) {key : κ}
    {value : α} : entries.lookup key = some value ↔ (key, value) ∈ entries := by
  induction entries with
  | nil => simp
  | cons entry rest ih =>
    obtain ⟨hentry, hrest⟩ := List.nodup_cons.1 h
    obtain ⟨k, a⟩ := entry
    rw [List.lookup_cons, List.mem_cons]
    by_cases heq : key = k
    · subst heq
      have hnot : (key, value) ∉ rest := fun hin ↦ hentry (List.mem_map.2 ⟨_, hin, rfl⟩)
      simp [hnot, eq_comm]
    · rw [beq_false_of_ne heq]
      have hne : (key, value) ≠ (k, a) := fun hsame ↦ heq (congrArg Prod.fst hsame)
      simp [hne, ih hrest]

/-- Where keys are there once, the order of the entries makes no difference. -/
theorem lookup_perm {entries others : List (κ × α)} (h : (entries.map (·.1)).Nodup)
    (hperm : entries.Perm others) (key : κ) : entries.lookup key = others.lookup key := by
  refine Option.ext fun value ↦ ?_
  rw [lookup_eq_some_iff h, lookup_eq_some_iff ((hperm.map _).nodup_iff.1 h), hperm.mem_iff]

theorem lookup_map {β : Type} (entries : List (κ × α)) (f : α → β) (key : κ) :
    (entries.map fun entry ↦ (entry.1, f entry.2)).lookup key = (entries.lookup key).map f := by
  induction entries with
  | nil => rfl
  | cons entry rest ih =>
    rw [List.map_cons, List.lookup_cons, List.lookup_cons, ih]
    split <;> rfl

end Dict

/-! ### The mentions of a symbol -/

namespace TypeInfo

/-- The names that declare a symbol, as they were recorded. -/
def defsOf (info : TypeInfo) (id : SymbolId) : List Ident :=
  (info.defs.values.filter (·.symbol = id)).map (·.ident)

/-- The names that use a symbol, as they were recorded. -/
def usesOf (info : TypeInfo) (id : SymbolId) : List Ident :=
  (info.uses.values.filter (·.symbol = id)).map (·.ident)

/-- Whether a name declares or uses a symbol. -/
def Mentions (info : TypeInfo) (id : SymbolId) : Prop :=
  ∃ ref ∈ info.defs.values ++ info.uses.values, ref.symbol = id

theorem mentions_iff {info : TypeInfo} {id : SymbolId} :
    info.Mentions id ↔ info.defsOf id ++ info.usesOf id ≠ [] := by
  rw [defsOf, usesOf, ← List.map_append, ← List.filter_append, ne_eq, List.map_eq_nil_iff,
    List.filter_eq_nil_iff, Mentions]
  push Not
  simp only [decide_eq_true_eq]

end TypeInfo

namespace Lifetime

variable {lifetime : Lifetime} {ident : Ident} {idents defs uses : List Ident}

/-- The least span around some names. -/
structure Bounds (span : Span) (idents : List Ident) : Prop where
  start : IsLeast {pos | ∃ ident ∈ idents, ident.pos = pos} span.start
  stop : IsGreatest {pos | ∃ ident ∈ idents, ident.info.span.stop = pos} span.stop

theorem bounds_singleton (ident : Ident) : Bounds ident.info.span [ident] where
  start := ⟨⟨ident, List.mem_singleton_self _, rfl⟩, by
    rintro pos ⟨other, hother, rfl⟩
    rw [List.mem_singleton.1 hother, Ident.pos]⟩
  stop := ⟨⟨ident, List.mem_singleton_self _, rfl⟩, by
    rintro pos ⟨other, hother, rfl⟩
    rw [List.mem_singleton.1 hother]⟩

theorem Bounds.cover {span : Span} (h : Bounds span idents) (ident : Ident) :
    Bounds (span.cover ident.info.span) (idents ++ [ident]) := by
  have hset : ∀ place : Ident → Nat, {pos | ∃ other ∈ idents ++ [ident], place other = pos} =
      insert (place ident) {pos | ∃ other ∈ idents, place other = pos} := by
    intro place
    ext pos
    simp only [List.mem_append, List.mem_singleton, Set.mem_ofPred_eq, Set.mem_insert_iff,
      or_and_right, exists_or, exists_eq_left]
    rw [or_comm, @eq_comm _ pos]
  constructor
  · rw [hset, Span.cover, min_comm]
    exact h.start.insert ident.pos
  · rw [hset, Span.cover, max_comm]
    exact h.stop.insert ident.info.span.stop

/-- A lifetime is made of names that declare a symbol and names that use it, in this order. -/
structure Gathers (lifetime : Lifetime) (defs uses : List Ident) : Prop where
  definition : lifetime.definition = defs.getLast?
  uses_eq : lifetime.uses = uses
  span : Bounds lifetime.span (defs ++ uses)

theorem gathers_ofDef (ident : Ident) : (ofDef ident).Gathers [ident] [] :=
  ⟨rfl, rfl, bounds_singleton ident⟩

theorem gathers_ofUse (ident : Ident) : (ofUse ident).Gathers [] [ident] :=
  ⟨rfl, rfl, bounds_singleton ident⟩

theorem Gathers.addDef (h : lifetime.Gathers defs []) (ident : Ident) :
    (lifetime.addDef ident).Gathers (defs ++ [ident]) [] where
  definition := List.getLast?_concat.symm
  uses_eq := h.uses_eq
  span := by
    have hspan := h.span
    rw [List.append_nil] at hspan ⊢
    exact hspan.cover ident

theorem Gathers.addUse (h : lifetime.Gathers defs uses) (ident : Ident) :
    (lifetime.addUse ident).Gathers defs (uses ++ [ident]) where
  definition := h.definition
  uses_eq := congrArg (· ++ [ident]) h.uses_eq
  span := by
    rw [← List.append_assoc]
    exact h.span.cover ident

/-- What is known of a symbol after some of its mentions: nothing before the first of them. -/
def Known (defs uses : List Ident) : Option Lifetime → Prop
  | none => defs ++ uses = []
  | some lifetime => lifetime.Gathers defs uses

/-- One more mention of a symbol. -/
def mention (start : Ident → Lifetime) (extend : Lifetime → Ident → Lifetime)
    (known : Option Lifetime) (ident : Ident) : Option Lifetime :=
  some ((known.map (extend · ident)).getD (start ident))

theorem known_mention_def {known : Option Lifetime} (h : Known defs [] known) (ident : Ident) :
    Known (defs ++ [ident]) [] (mention ofDef addDef known ident) := by
  cases known with
  | none =>
    obtain ⟨rfl, -⟩ := List.append_eq_nil_iff.1 h
    exact gathers_ofDef ident
  | some lifetime => exact Gathers.addDef h ident

theorem known_mention_use {known : Option Lifetime} (h : Known defs uses known) (ident : Ident) :
    Known defs (uses ++ [ident]) (mention ofUse addUse known ident) := by
  cases known with
  | none =>
    obtain ⟨rfl, rfl⟩ := List.append_eq_nil_iff.1 h
    exact gathers_ofUse ident
  | some lifetime => exact Gathers.addUse h ident

theorem known_foldl_defs (rest : List Ident) {known : Option Lifetime} (h : Known defs [] known) :
    Known (defs ++ rest) [] (rest.foldl (mention ofDef addDef) known) := by
  induction rest generalizing defs known with
  | nil => rwa [List.append_nil]
  | cons ident rest ih =>
    rw [List.append_cons]
    exact ih (known_mention_def h ident)

theorem known_foldl_uses (rest : List Ident) {known : Option Lifetime} (h : Known defs uses known) :
    Known defs (uses ++ rest) (rest.foldl (mention ofUse addUse) known) := by
  induction rest generalizing uses known with
  | nil => rwa [List.append_nil]
  | cons ident rest ih =>
    rw [List.append_cons]
    exact ih (known_mention_use h ident)

/-- What is known of a symbol from all names that declare it and all that use it. -/
def gather (defs uses : List Ident) : Option Lifetime :=
  uses.foldl (mention ofUse addUse) (defs.foldl (mention ofDef addDef) none)

theorem known_gather (defs uses : List Ident) : Known defs uses (gather defs uses) :=
  known_foldl_uses uses (known_foldl_defs defs (show Known [] [] none from rfl))

/-- A lifetime tells of names that declare a symbol and names that use it: the last of the first, all
of the others by position, and the least span around them all. -/
structure Tells (lifetime : Lifetime) (defs uses : List Ident) : Prop where
  definition : lifetime.definition = defs.getLast?
  uses_perm : lifetime.uses.Perm uses
  inOrder : lifetime.uses.Pairwise fun first second ↦ first.pos ≤ second.pos
  span : Bounds lifetime.span (defs ++ uses)

/-- A list in the order of places. -/
theorem pairwise_mergeSort_place {α : Type} (place : α → Nat) (list : List α) :
    (list.mergeSort fun first second ↦ place first ≤ place second).Pairwise
      fun first second ↦ place first ≤ place second := by
  refine (List.pairwise_mergeSort ?_ ?_ _).imp of_decide_eq_true
  · intro first second third hfirst hsecond
    exact decide_eq_true ((of_decide_eq_true hfirst).trans (of_decide_eq_true hsecond))
  · intro first second
    rw [Bool.or_eq_true, decide_eq_true_iff, decide_eq_true_iff]
    exact le_total _ _

theorem Gathers.sorted (h : lifetime.Gathers defs uses) : lifetime.sorted.Tells defs uses where
  definition := h.definition
  uses_perm := h.uses_eq ▸ List.mergeSort_perm _ _
  inOrder := pairwise_mergeSort_place Ident.pos _
  span := h.span

end Lifetime

/-! ### The index -/

namespace LifetimeIndex

variable {records : Dict SymbolId Lifetime}

theorem nodup_keys_foldl (start : Ident → Lifetime) (extend : Lifetime → Ident → Lifetime)
    (refs : List IdentRef) (h : records.keys.Nodup) :
    (refs.foldl (addRef start extend) records).keys.Nodup := by
  induction refs generalizing records with
  | nil => exact h
  | cons ref rest ih => exact ih (Dict.nodup_keys_insert h _ _)

/-- Names change the record of their own symbol only. -/
theorem find?_foldl (start : Ident → Lifetime) (extend : Lifetime → Ident → Lifetime)
    (refs : List IdentRef) (records : Dict SymbolId Lifetime) (id : SymbolId) :
    (refs.foldl (addRef start extend) records).find? id =
      ((refs.filter (·.symbol = id)).map (·.ident)).foldl (Lifetime.mention start extend)
        (records.find? id) := by
  induction refs generalizing records with
  | nil => rfl
  | cons ref rest ih =>
    rw [List.foldl_cons, ih, addRef, List.filter_cons]
    by_cases heq : ref.symbol = id
    · subst heq
      rw [Dict.find?_insert_self, if_pos (decide_eq_true rfl)]
      rfl
    · rw [Dict.find?_insert_of_ne _ _ (Ne.symm heq), if_neg (by simpa using heq)]

/-- The records of a check in the order in which their symbols are first mentioned. -/
def recordsOf (info : TypeInfo) : Dict SymbolId Lifetime :=
  info.uses.values.foldl (addRef Lifetime.ofUse Lifetime.addUse)
    (info.defs.values.foldl (addRef Lifetime.ofDef Lifetime.addDef) Dict.empty)

theorem find?_recordsOf (info : TypeInfo) (id : SymbolId) :
    (recordsOf info).find? id = Lifetime.gather (info.defsOf id) (info.usesOf id) := by
  rw [recordsOf, find?_foldl, find?_foldl]
  rfl

theorem ofInfo_perm (info : TypeInfo) :
    (ofInfo info).records.Perm
      ((recordsOf info).entries.map fun entry ↦ (entry.1, entry.2.sorted)) :=
  List.mergeSort_perm _ _

theorem nodup_symbols (info : TypeInfo) : (ofInfo info).symbols.Nodup := by
  refine ((ofInfo_perm info).map _).nodup_iff.2 ?_
  rw [List.map_map]
  exact nodup_keys_foldl _ _ _ (nodup_keys_foldl _ _ _ List.nodup_nil)

theorem find?_ofInfo (info : TypeInfo) (id : SymbolId) :
    (ofInfo info).find? id =
      (Lifetime.gather (info.defsOf id) (info.usesOf id)).map Lifetime.sorted := by
  rw [← find?_recordsOf]
  exact (Dict.lookup_perm (nodup_symbols info) (ofInfo_perm info) id).trans
    (Dict.lookup_map _ _ id)

/-- The lifetime of a symbol has all names that use it, by position. -/
theorem uses_ofInfo (info : TypeInfo) (id : SymbolId) :
    (((ofInfo info).find? id).map (·.uses)).getD [] =
      (info.usesOf id).mergeSort fun first second ↦ first.pos ≤ second.pos := by
  have hknown := Lifetime.known_gather (info.defsOf id) (info.usesOf id)
  rw [find?_ofInfo]
  cases hgather : Lifetime.gather (info.defsOf id) (info.usesOf id) with
  | none =>
    rw [hgather] at hknown
    rw [(List.append_eq_nil_iff.1 hknown).2]
    exact List.mergeSort_nil.symm
  | some lifetime =>
    rw [hgather] at hknown
    rw [← hknown.uses_eq]
    rfl

theorem mem_symbols_iff {index : LifetimeIndex} {id : SymbolId} :
    id ∈ index.symbols ↔ ∃ lifetime, (id, lifetime) ∈ index.records := by
  rw [symbols, List.mem_map]
  exact ⟨fun ⟨entry, hentry, hid⟩ ↦ ⟨entry.2, hid ▸ hentry⟩, fun ⟨_, hentry⟩ ↦ ⟨_, hentry, rfl⟩⟩

/-- An index has one record for each symbol that is mentioned, with what its mentions tell, and its
records are in the order of the first mentions. -/
structure Covers (index : LifetimeIndex) (info : TypeInfo) : Prop where
  once : index.symbols.Nodup
  mem_symbols : ∀ id, id ∈ index.symbols ↔ info.Mentions id
  tells : ∀ id lifetime, (id, lifetime) ∈ index.records →
    lifetime.Tells (info.defsOf id) (info.usesOf id)
  inOrder : index.records.Pairwise fun first second ↦ first.2.span.start ≤ second.2.span.start

theorem covers_ofInfo (info : TypeInfo) : (ofInfo info).Covers info := by
  have hentry : ∀ id lifetime, (id, lifetime) ∈ (ofInfo info).records ↔
      (Lifetime.gather (info.defsOf id) (info.usesOf id)).map Lifetime.sorted = some lifetime := by
    intro id lifetime
    rw [← find?_ofInfo]
    exact (Dict.lookup_eq_some_iff (nodup_symbols info)).symm
  constructor
  · exact nodup_symbols info
  · intro id
    have hknown := Lifetime.known_gather (info.defsOf id) (info.usesOf id)
    simp only [mem_symbols_iff, hentry, TypeInfo.mentions_iff]
    cases hgather : Lifetime.gather (info.defsOf id) (info.usesOf id) with
    | none =>
      rw [hgather] at hknown
      simp [show info.defsOf id ++ info.usesOf id = [] from hknown]
    | some lifetime =>
      rw [hgather] at hknown
      obtain ⟨ident, hident, -⟩ := hknown.span.start.1
      simp [List.ne_nil_of_mem hident]
  · intro id lifetime hmem
    obtain ⟨gathered, hgather, rfl⟩ := Option.map_eq_some_iff.1 ((hentry id lifetime).1 hmem)
    have hknown := Lifetime.known_gather (info.defsOf id) (info.usesOf id)
    rw [hgather] at hknown
    exact hknown.sorted
  · exact Lifetime.pairwise_mergeSort_place (fun entry : SymbolId × Lifetime ↦ entry.2.span.start) _

end LifetimeIndex

/-! ### The objects of a package -/

namespace ResolvedPackage

variable {package : ResolvedPackage}

theorem mem_symbols_iff_lifetime? {id : SymbolId} :
    id ∈ package.lifetimes.symbols ↔ (package.lifetime? id).isSome := by
  rw [lifetime?, LifetimeIndex.find?, List.lookup_isSome_iff, LifetimeIndex.symbols, List.mem_map]
  simp only [beq_iff_eq, @eq_comm _ id]

/-- The index of a package covers what its check found out, and the objects of the package are the
symbols of the index and those that are not named, each once, in the order of their first mentions or
of their declarations. -/
theorem lifetimes_gathered (package : ResolvedPackage) (store : Store)
    (hindex : package.lifetimes = LifetimeIndex.ofInfo package.info)
    (himplicits : package.info.implicits.values.Nodup) :
    package.lifetimes.Covers package.info ∧
      (package.objects store).Nodup ∧
      (∀ id, id ∈ package.objects store ↔
        id ∈ package.lifetimes.symbols ∨ id ∈ package.info.implicits.values) ∧
      (package.objects store).Pairwise fun first second ↦
        package.placeOf store first ≤ package.placeOf store second := by
  have hcovers : package.lifetimes.Covers package.info :=
    hindex ▸ LifetimeIndex.covers_ofInfo package.info
  refine ⟨hcovers, ?_, fun id ↦ ?_, Lifetime.pairwise_mergeSort_place (package.placeOf store) _⟩
  · rw [objects, (List.mergeSort_perm _ _).nodup_iff]
    refine hcovers.once.append (himplicits.filter _) fun id hsymbol hunnamed ↦ ?_
    have hsome := mem_symbols_iff_lifetime?.1 hsymbol
    rw [Option.isNone_iff_eq_none.1 (List.mem_filter.1 hunnamed).2] at hsome
    cases hsome
  · rw [objects, List.mem_mergeSort, List.mem_append, List.mem_filter, mem_symbols_iff_lifetime?,
      ← Option.not_isSome]
    cases (package.lifetime? id).isSome <;> simp

/-! ### Uses before and after a declaration -/

/-- A recorded name, the node of this number at this position. -/
def recorded (number pos symbol : Nat) : NodeId × IdentRef :=
  let id : NodeId := ⟨⟨0⟩, 1, number⟩
  (id, ⟨⟨⟨id, ⟨pos, pos + 1⟩⟩, "x"⟩, ⟨symbol⟩⟩)

/-- A package with a symbol that is declared between its uses, the last of which is recorded first,
one that is only used, and one that has no name. -/
def entangled : ResolvedPackage :=
  let info : TypeInfo := ⟨[], ⟨[recorded 2 10 0]⟩,
    ⟨[recorded 3 20 0, recorded 1 5 1, recorded 0 3 0]⟩, ⟨[(⟨⟨0⟩, 1, 4⟩, ⟨2⟩)]⟩⟩
  { (default : ResolvedPackage) with info, lifetimes := LifetimeIndex.ofInfo info }

theorem entangled_gathered :
    entangled.lifetimes = LifetimeIndex.ofInfo entangled.info ∧
      entangled.info.implicits.values.Nodup ∧
      (∀ id ∈ [(⟨0⟩ : SymbolId), ⟨1⟩, ⟨2⟩], id ∈ entangled.objects default) ∧
      ∃ lifetime, (⟨0⟩, lifetime) ∈ entangled.lifetimes.records ∧ lifetime.span.start = 3 ∧
        lifetime.uses.map (·.pos) = [3, 20] := by
  have himplicits : entangled.info.implicits.values.Nodup := by decide
  obtain ⟨hcovers, -, hobjects, -⟩ := entangled.lifetimes_gathered default rfl himplicits
  have hdeclared := (hcovers.mem_symbols ⟨0⟩).2 ⟨_, List.mem_cons_self, rfl⟩
  have hused := (hcovers.mem_symbols ⟨1⟩).2
    ⟨_, List.mem_cons_of_mem _ (List.mem_cons_of_mem _ List.mem_cons_self), rfl⟩
  obtain ⟨lifetime, hrecord⟩ := LifetimeIndex.mem_symbols_iff.1 hdeclared
  have htells := hcovers.tells _ lifetime hrecord
  refine ⟨rfl, himplicits, ?_, lifetime, hrecord, ?_, ?_⟩
  · intro id hid
    rw [hobjects]
    have hcases : id = ⟨0⟩ ∨ id = ⟨1⟩ ∨ id = ⟨2⟩ := by simpa using hid
    rcases hcases with rfl | rfl | rfl
    · exact Or.inl hdeclared
    · exact Or.inl hused
    · exact Or.inr List.mem_cons_self
  · have hleast : IsLeast {pos | pos = 10 ∨ pos = 20 ∨ pos = 3} lifetime.span.start := by
      have hstart := htells.span.start
      simpa [entangled, TypeInfo.defsOf, TypeInfo.usesOf, Dict.values, recorded, Ident.pos,
        eq_comm] using hstart
    refine hleast.unique ⟨Or.inr (Or.inr rfl), ?_⟩
    rintro pos (rfl | rfl | rfl) <;> decide
  · have hperm : (lifetime.uses.map (·.pos)).Perm [3, 20] :=
      (htells.uses_perm.map _).trans (List.Perm.swap 3 20 [])
    exact hperm.eq_of_pairwise' (List.pairwise_map.2 htells.inOrder) (by decide)

end ResolvedPackage

end PackageAtlas
