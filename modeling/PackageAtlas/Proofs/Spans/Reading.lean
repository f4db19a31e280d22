import PackageAtlas.Parse.File
import PackageAtlas.Proofs.Spans.Runs

/-!
Parsers that lay out trees. The state of a parser is tracked by the run of trees that it has built
since it was at some position (`Layout`). A parser reads from one run to another (`Reads`), and it
builds trees when it puts them behind whatever run there is (`Builds`). What a rule builds is shown
from its own start on and then holds behind every run (`Builds.fromStart`).
-/

set_option autoImplicit false
set_option relaxedAutoImplicit false

namespace PackageAtlas

open Lexeme Node

namespace ParseState

/-- The tokens that are left stand in the text, behind what was read, and the names among them are
made of parts of names. -/
structure Sound (input : ParseInput) (state : ParseState) : Prop where
  size : input.entry.size = byteLength input.chars
  placed : Placed input.chars state.lastStop state.tokens
  lastStop_le : state.lastStop ≤ input.entry.size
  names : ∀ token ∈ state.tokens, token.kind = .ident → IsName token.text

/-- The position where the last token ended. -/
def reach (input : ParseInput) (state : ParseState) : Nat := input.entry.base + state.lastStop

/-- The position of the next token, at the end that of the end of the text. -/
def front (input : ParseInput) (state : ParseState) : Nat :=
  input.entry.base + (state.tokens.head?.map (·.offset)).getD input.entry.size

variable {input : ParseInput} {state : ParseState}

theorem Sound.reach_le_front (h : state.Sound input) : state.reach input ≤ state.front input := by
  unfold reach front
  cases htokens : state.tokens with
  | nil => simpa using h.lastStop_le
  | cons token rest =>
    have := h.placed.ahead token (by rw [htokens]; exact List.mem_cons_self)
    simpa using this

theorem Sound.pos_of_le (h : state.Sound input) {offset : Nat}
    (hle : offset ≤ byteLength input.chars) :
    input.entry.pos offset = input.entry.base + offset := by
  rw [FileEntry.pos, h.size, Nat.min_eq_left hle]

theorem Sound.pos_lastStop (h : state.Sound input) :
    input.entry.pos state.lastStop = state.reach input := by
  rw [h.pos_of_le (h.lastStop_le.trans_eq h.size), reach]

end ParseState

/-- The trees laid out since a parser was in an earlier state and at a position, and whether it has
read anything since. -/
structure Layout (input : ParseInput) (origin : ParseState) (lo : Nat) (hasRead : Bool)
    (trees : List Node) (state : ParseState) : Prop where
  sound : state.Sound input
  lastStop_le : origin.lastStop ≤ state.lastStop
  nextIndex_le : origin.nextIndex ≤ state.nextIndex
  run : Run input origin.nextIndex state.nextIndex lo (state.reach input) trees
  lo_le : lo ≤ state.front input
  lo_lt : hasRead = true → lo < state.reach input

section Judgements

variable {α β : Type}

/-- Where the next token is of a kind, the parser leads from one layout to another one. -/
structure ReadsAt (kind : Option TokenKind) (lo : Nat) (trees : List Node) (hasRead : Bool)
    (parser : Parser α) (hasRead' : α → Bool) (trees' : α → List Node) : Prop where
  layout : ∀ {input origin state a state'}, Layout input origin lo hasRead trees state →
    state.tokens.head?.map (·.kind) = kind → parser input state = .ok (a, state') →
    Layout input origin lo (hasRead' a) (trees' a) state'

/-- The parser leads from one layout to another one. -/
def Reads (lo : Nat) (trees : List Node) (hasRead : Bool) (parser : Parser α)
    (hasRead' : α → Bool) (trees' : α → List Node) : Prop :=
  ∀ kind, ReadsAt kind lo trees hasRead parser hasRead' trees'

/-- Where the next token is of a kind, the parser puts trees behind every run. The flag says whether
it reads something for sure. -/
def BuildsAt (kind : Option TokenKind) (parser : Parser α) (progress : Bool)
    (built : α → List Node) : Prop :=
  ∀ lo trees hasRead, ReadsAt kind lo trees hasRead parser (fun _ ↦ progress || hasRead)
    fun a ↦ trees ++ built a

/-- The parser puts trees behind every run. -/
def Builds (parser : Parser α) (progress : Bool) (built : α → List Node) : Prop :=
  ∀ kind, BuildsAt kind parser progress built

theorem Builds.of {parser : Parser α} {progress : Bool} {built : α → List Node}
    (h : ∀ lo trees hasRead, Reads lo trees hasRead parser (fun _ ↦ progress || hasRead)
      fun a ↦ trees ++ built a) : Builds parser progress built :=
  fun kind lo trees hasRead ↦ h lo trees hasRead kind

theorem Builds.reads {parser : Parser α} {progress : Bool} {built : α → List Node}
    (h : Builds parser progress built) (lo : Nat) (trees : List Node) (hasRead : Bool) :
    Reads lo trees hasRead parser (fun _ ↦ progress || hasRead) fun a ↦ trees ++ built a :=
  fun kind ↦ h kind lo trees hasRead

/-- The parser only looks at the input and the state. -/
def Looks (parser : Parser α) : Prop :=
  ∀ input state a state', parser input state = .ok (a, state') → state' = state

variable {kind : Option TokenKind} {lo : Nat} {trees trees' : List Node} {hasRead progress : Bool}
  {parser : Parser α} {next : α → Parser β} {hasReadMid : α → Bool} {mid : α → List Node}
  {hasReadEnd : β → Bool} {final : β → List Node} {built : α → List Node}

/-! ### Sequences -/

/-- What a sequence of two parsers does when it does not complain. -/
theorem Parser.bind_eq_ok {input : ParseInput} {state state' : ParseState} {b : β}
    (h : (parser >>= next) input state = .ok (b, state')) :
    ∃ a middle, parser input state = .ok (a, middle) ∧ next a input middle = .ok (b, state') := by
  change (parser input state >>= fun result ↦ next result.1 input result.2) = _ at h
  cases hfirst : parser input state with
  | error error =>
    rw [hfirst] at h
    cases h
  | ok result =>
    rw [hfirst] at h
    exact ⟨result.1, result.2, rfl, h⟩

theorem ReadsAt.pure {a : α} (hbuilt : mid a = trees)
    (hflag : hasReadMid a = true → hasRead = true) :
    ReadsAt kind lo trees hasRead (Pure.pure a) hasReadMid mid := by
  refine ⟨fun {input origin state a' state'} h _ hrun ↦ ?_⟩
  obtain ⟨rfl, rfl⟩ : a = a' ∧ state = state' := by cases hrun; exact ⟨rfl, rfl⟩
  exact { h with run := hbuilt ▸ h.run, lo_lt := fun hread ↦ h.lo_lt (hflag hread) }

theorem ReadsAt.bind (hfirst : ReadsAt kind lo trees hasRead parser hasReadMid mid)
    (hnext : ∀ a, Reads lo (mid a) (hasReadMid a) (next a) hasReadEnd final) :
    ReadsAt kind lo trees hasRead (parser >>= next) hasReadEnd final := by
  refine ⟨fun h hkind hrun ↦ ?_⟩
  obtain ⟨a, middle, hrun, hrest⟩ := Parser.bind_eq_ok hrun
  exact (hnext a _).layout (hfirst.layout h hkind hrun) rfl hrest

theorem Reads.pure {a : α} (hbuilt : mid a = trees)
    (hflag : hasReadMid a = true → hasRead = true) :
    Reads lo trees hasRead (Pure.pure a) hasReadMid mid :=
  fun _ ↦ ReadsAt.pure hbuilt hflag

theorem Reads.bind (hfirst : Reads lo trees hasRead parser hasReadMid mid)
    (hnext : ∀ a, Reads lo (mid a) (hasReadMid a) (next a) hasReadEnd final) :
    Reads lo trees hasRead (parser >>= next) hasReadEnd final :=
  fun kind ↦ (hfirst kind).bind hnext

/-- Going on after a parser that puts trees behind the run. -/
theorem BuildsAt.bind (hfirst : BuildsAt kind parser progress built)
    (hnext : ∀ a, Reads lo (trees ++ built a) (progress || hasRead) (next a) hasReadEnd final) :
    ReadsAt kind lo trees hasRead (parser >>= next) hasReadEnd final :=
  (hfirst lo trees hasRead).bind hnext

theorem Builds.bind (hfirst : Builds parser progress built)
    (hnext : ∀ a, Reads lo (trees ++ built a) (progress || hasRead) (next a) hasReadEnd final) :
    Reads lo trees hasRead (parser >>= next) hasReadEnd final :=
  fun kind ↦ (hfirst kind).bind hnext

/-- A parser after which the same trees are seen through another result. -/
theorem BuildsAt.map {f : α → β} {built' : β → List Node}
    (h : BuildsAt kind parser progress built) (hbuilt : ∀ a, built' (f a) = built a) :
    BuildsAt kind (f <$> parser) progress built' := by
  intro lo trees hasRead
  rw [map_eq_pure_bind]
  exact h.bind fun a ↦ Reads.pure (by rw [hbuilt]) id

theorem Builds.map {f : α → β} {built' : β → List Node} (h : Builds parser progress built)
    (hbuilt : ∀ a, built' (f a) = built a) : Builds (f <$> parser) progress built' :=
  fun kind ↦ (h kind).map hbuilt

theorem ReadsAt.looking (hlooks : Looks parser)
    (hnext : ∀ a, ReadsAt kind lo trees hasRead (next a) hasReadEnd final) :
    ReadsAt kind lo trees hasRead (parser >>= next) hasReadEnd final := by
  refine ⟨fun h hkind hrun ↦ ?_⟩
  obtain ⟨a, middle, hrun, hrest⟩ := Parser.bind_eq_ok hrun
  obtain rfl := hlooks _ _ _ _ hrun
  exact (hnext a).layout h hkind hrest

/-- Going on after a look. -/
theorem Reads.looking (hlooks : Looks parser)
    (hnext : ∀ a, Reads lo trees hasRead (next a) hasReadEnd final) :
    Reads lo trees hasRead (parser >>= next) hasReadEnd final :=
  fun kind ↦ ReadsAt.looking hlooks fun a ↦ hnext a kind

theorem Reads.ite {c : Prop} [Decidable c] {parser' : Parser α}
    (h : Reads lo trees hasRead parser hasReadMid mid)
    (h' : Reads lo trees hasRead parser' hasReadMid mid) :
    Reads lo trees hasRead (if c then parser else parser') hasReadMid mid := by
  split
  · exact h
  · exact h'

/-- A parser that reads something for sure also reads perhaps. -/
theorem Reads.relax (h : Reads lo trees hasRead parser (fun _ ↦ true) mid) :
    Reads lo trees hasRead parser hasReadMid mid := by
  refine fun kind ↦ ⟨fun hlayout hkind hrun ↦ ?_⟩
  have hend := (h kind).layout hlayout hkind hrun
  exact { hend with lo_lt := fun _ ↦ hend.lo_lt rfl }

/-! ### Looks -/

theorem looks_read : Looks (read : Parser ParseInput) := by
  intro input state a state' h
  cases h
  rfl

theorem looks_get : Looks (get : Parser ParseState) := by
  intro input state a state' h
  cases h
  rfl

theorem looks_peek? : Looks Parser.peek? := by
  intro input state a state' h
  cases h
  rfl

theorem looks_peekSecond? : Looks Parser.peekSecond? := by
  intro input state a state' h
  cases h
  rfl

theorem looks_isNext (kind : TokenKind) : Looks (Parser.isNext kind) := by
  intro input state a state' h
  cases h
  rfl

theorem looks_isDone : Looks Parser.isDone := by
  intro input state a state' h
  cases h
  rfl

theorem Looks.pure (a : α) : Looks (Pure.pure a : Parser α) := by
  intro input state a' state' h
  cases h
  rfl

theorem Looks.bind (h : Looks parser) (hnext : ∀ a, Looks (next a)) : Looks (parser >>= next) := by
  intro input state b state' hrun
  obtain ⟨a, middle, hrun, hrest⟩ := Parser.bind_eq_ok hrun
  exact (hnext a _ _ _ _ hrest).trans (h _ _ _ _ hrun)

theorem Looks.ite {c : Prop} [Decidable c] {parser' : Parser α} (h : Looks parser)
    (h' : Looks parser') : Looks (if c then parser else parser') := by
  split
  · exact h
  · exact h'

theorem looks_offset : Looks Parser.offset := by
  unfold Parser.offset
  refine .bind (looks_get.bind fun _ ↦ .pure _) fun token ↦ ?_
  cases token with
  | none => exact looks_read.bind fun _ ↦ .pure _
  | some token => exact .pure _

theorem looks_start : Looks Parser.start :=
  looks_read.bind fun _ ↦ looks_offset.bind fun _ ↦ .pure _

theorem looks_docBefore (offset : Nat) : Looks (Parser.docBefore offset) := by
  unfold Parser.docBefore
  refine looks_read.bind fun input ↦ ?_
  split <;> exact .pure _

/-- Where the parser stands is the front of its state. -/
theorem Parser.start_eq_ok {input : ParseInput} {state state' : ParseState} {start : Nat}
    (hsound : state.Sound input) (h : Parser.start input state = .ok (start, state')) :
    start = state.front input ∧ state' = state := by
  change (Parser.offset >>= fun offset ↦ Pure.pure (input.entry.pos offset)) input state = _ at h
  obtain ⟨offset, middle, hoffset, hend⟩ := Parser.bind_eq_ok h
  obtain rfl := looks_offset _ _ _ _ hoffset
  cases hend
  refine ⟨?_, rfl⟩
  obtain ⟨token, middle, htoken, hmatch⟩ := Parser.bind_eq_ok hoffset
  cases htoken
  unfold ParseState.front
  cases htokens : state'.tokens with
  | nil =>
    rw [htokens] at hmatch
    cases hmatch
    exact hsound.pos_of_le hsound.size.le
  | cons token rest =>
    rw [htokens] at hmatch
    cases hmatch
    refine hsound.pos_of_le ?_
    have hwithin := hsound.placed.within token (by rw [htokens]; exact List.mem_cons_self)
    exact (Nat.le_add_right _ _).trans hwithin

/-! ### Complaints -/

theorem Parser.fail_ne_ok {complaint : Complaint} {input : ParseInput} {state state' : ParseState}
    {a : α} : Parser.fail complaint input state ≠ .ok (a, state') := by
  intro h
  obtain ⟨_, _, _, h⟩ := Parser.bind_eq_ok h
  obtain ⟨_, _, _, h⟩ := Parser.bind_eq_ok h
  obtain ⟨_, _, _, h⟩ := Parser.bind_eq_ok h
  cases h

theorem Reads.fail {complaint : Complaint} :
    Reads lo trees hasRead (Parser.fail complaint) hasReadMid mid :=
  fun _ ↦ ⟨fun _ _ hrun ↦ absurd hrun Parser.fail_ne_ok⟩

theorem Reads.failing {complaint : Complaint} :
    Reads lo trees hasRead (Parser.fail complaint >>= next) hasReadEnd final := by
  refine fun kind ↦ ⟨fun _ _ hrun ↦ ?_⟩
  obtain ⟨_, _, hrun, _⟩ := Parser.bind_eq_ok hrun
  exact absurd hrun Parser.fail_ne_ok

theorem Builds.fail {complaint : Complaint} : Builds (Parser.fail complaint) progress built :=
  fun kind _ _ _ ↦ Reads.fail kind

/-! ### Rules behind a run -/

/-- What is laid out from the front of a state on stands behind the run of that state. -/
theorem Layout.join {input : ParseInput} {origin middle state : ParseState} {built : List Node}
    (h : Layout input origin lo hasRead trees middle)
    (hend : Layout input middle (middle.front input) progress built state) :
    Layout input origin lo (progress || hasRead) (trees ++ built) state := by
  have hreach : middle.reach input ≤ state.reach input := Nat.add_le_add_left hend.lastStop_le _
  refine ⟨hend.sound, h.lastStop_le.trans hend.lastStop_le,
    h.nextIndex_le.trans hend.nextIndex_le, ?_, h.lo_le.trans hend.lo_le, fun hread ↦ ?_⟩
  · exact h.run.append hend.run h.sound.reach_le_front h.lo_le hreach h.nextIndex_le
      hend.nextIndex_le
  · rcases Bool.or_eq_true_iff.1 hread with hread | hread
    · exact h.lo_le.trans_lt (hend.lo_lt hread)
    · exact (h.lo_lt hread).trans_le hreach

/-- Before anything is read behind a state. -/
theorem Layout.fresh {input : ParseInput} {origin state : ParseState}
    (h : Layout input origin lo hasRead trees state) :
    Layout input state (state.front input) false [] state :=
  ⟨h.sound, le_rfl, le_rfl, Run.nil, le_rfl, fun hread ↦ absurd hread Bool.false_ne_true⟩

/-- What a rule lays out from its own start on stands behind every run. -/
theorem BuildsAt.fromStart {rule : Nat → Parser α}
    (h : ∀ start, ReadsAt kind start [] false (rule start) (fun _ ↦ progress) built) :
    BuildsAt kind (Parser.start >>= rule) progress built := by
  refine fun lo trees hasRead ↦ ⟨fun hlayout hkind hrun ↦ ?_⟩
  obtain ⟨start, middle, hstart, hrun⟩ := Parser.bind_eq_ok hrun
  obtain ⟨rfl, rfl⟩ := Parser.start_eq_ok hlayout.sound hstart
  exact hlayout.join ((h _).layout hlayout.fresh hkind hrun)

theorem Builds.fromStart {rule : Nat → Parser α}
    (h : ∀ start, Reads start [] false (rule start) (fun _ ↦ progress) built) :
    Builds (Parser.start >>= rule) progress built :=
  fun kind ↦ BuildsAt.fromStart fun start ↦ h start kind

end Judgements

end PackageAtlas
