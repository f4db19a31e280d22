import PackageAtlas.Proofs.Spans.Reading

/-!
The steps that parsers are made of. Going past a token that is no terminator is progress; a new node
takes the next number and stands around trees of the run or on the text of a token.
-/

set_option autoImplicit false
set_option relaxedAutoImplicit false

namespace PackageAtlas

open Lexeme Node

section Steps

variable {α β : Type} {kind : Option TokenKind} {wanted : TokenKind} {lo : Nat}
  {trees left right children : List Node} {hasRead progress : Bool} {parser : Parser α}
  {next : α → Parser β} {hasReadEnd : β → Bool} {final : β → List Node} {built : α → List Node}
  {input : ParseInput} {origin state state' : ParseState} {token : Token} {rest : List Token}

/-! ### Going past tokens -/

/-- The state behind the first token. -/
def ParseState.past (state : ParseState) (token : Token) : ParseState :=
  { state with tokens := state.tokens.tail, lastStop := token.stop }

theorem Layout.past (h : Layout input origin lo hasRead trees state)
    (htokens : state.tokens = token :: rest) :
    Layout input origin lo (decide (token.kind ≠ .semicolon) || hasRead) trees
      (state.past token) := by
  have hplaced : Placed input.chars state.lastStop (token :: rest) := htokens ▸ h.sound.placed
  have hahead := hplaced.ahead token List.mem_cons_self
  have hstop : token.offset ≤ token.stop := Nat.le_add_right _ _
  have hlast : state.lastStop ≤ token.stop := hahead.trans hstop
  have hfront : state.front input = input.entry.base + token.offset := by
    rw [ParseState.front, htokens]
    rfl
  have hreach : state.reach input ≤ (state.past token).reach input := Nat.add_le_add_left hlast _
  have hsound : (state.past token).Sound input := by
    refine ⟨h.sound.size, ?_, (hplaced.within token List.mem_cons_self).trans_eq h.sound.size.symm,
      fun other hother ↦ h.sound.names other (List.mem_of_mem_tail hother)⟩
    rw [ParseState.past, htokens]
    exact hplaced.tail
  have hlo : lo ≤ (state.past token).reach input :=
    h.lo_le.trans (hfront.trans_le (Nat.add_le_add_left hstop _))
  refine ⟨hsound, h.lastStop_le.trans hlast, h.nextIndex_le,
    h.run.mono le_rfl le_rfl le_rfl hreach, hlo.trans hsound.reach_le_front, fun hread ↦ ?_⟩
  rcases Bool.or_eq_true_iff.1 hread with hread | hread
  · have hlt := hplaced.nonempty token List.mem_cons_self (of_decide_eq_true hread)
    exact h.lo_le.trans_lt (hfront.trans_lt (Nat.add_lt_add_left hlt _))
  · exact (h.lo_lt hread).trans_le hreach

theorem Layout.weaken (h : Layout input origin lo (progress || hasRead) trees state) :
    Layout input origin lo hasRead trees state :=
  { h with lo_lt := fun hread ↦ h.lo_lt (Bool.or_eq_true_iff.2 (.inr hread)) }

theorem Parser.bump_eq_ok (h : Parser.bump input state = .ok (token, state')) :
    ∃ rest, state.tokens = token :: rest ∧ state' = state.past token := by
  obtain ⟨_, _, hcurrent, hmatch⟩ := Parser.bind_eq_ok h
  cases hcurrent
  cases htokens : state.tokens with
  | nil =>
    rw [htokens] at hmatch
    exact absurd hmatch Parser.fail_ne_ok
  | cons first rest =>
    rw [htokens] at hmatch
    cases hmatch
    exact ⟨rest, rfl, rfl⟩

theorem Parser.expectAs_eq_ok {words : Wanted}
    (h : Parser.expectAs wanted words input state = .ok (token, state')) :
    token.kind = wanted ∧ ∃ rest, state.tokens = token :: rest ∧ state' = state.past token := by
  obtain ⟨isNext, _, hnext, hmatch⟩ := Parser.bind_eq_ok h
  cases hnext
  change (if ((state.tokens.head?.map (·.kind)) == some wanted) = true then Parser.bump
    else Parser.fail _) input state = _ at hmatch
  split at hmatch
  · rename_i hkind
    obtain ⟨rest, htokens, hstate⟩ := Parser.bump_eq_ok hmatch
    rw [htokens] at hkind
    exact ⟨by simpa using hkind, rest, htokens, hstate⟩
  · exact absurd hmatch Parser.fail_ne_ok

theorem Parser.eat_eq_ok {isThere : Bool}
    (h : Parser.eat wanted input state = .ok (isThere, state')) :
    isThere = false ∧ state' = state ∨
      isThere = true ∧ ∃ token rest, state.tokens = token :: rest ∧ token.kind = wanted ∧
        state' = state.past token := by
  obtain ⟨_, _, hcurrent, hmatch⟩ := Parser.bind_eq_ok h
  cases hcurrent
  cases htokens : state.tokens with
  | nil =>
    rw [htokens] at hmatch
    cases hmatch
    exact .inl ⟨rfl, rfl⟩
  | cons first rest =>
    rw [htokens] at hmatch
    change (if first.kind = wanted then
      (Parser.advance first >>= fun _ ↦ Pure.pure true : Parser Bool)
      else Pure.pure false) input state = _ at hmatch
    split at hmatch
    · rename_i hkind
      cases hmatch
      exact .inr ⟨rfl, first, rest, rfl, hkind, rfl⟩
    · cases hmatch
      exact .inl ⟨rfl, rfl⟩

/-- The parser builds no trees. The flag says whether it reads something for sure. -/
def Skips (parser : Parser α) (progress : Bool) : Prop :=
  ∀ kind lo trees hasRead,
    ReadsAt kind lo trees hasRead parser (fun _ ↦ progress || hasRead) fun _ ↦ trees

theorem Skips.bind (hfirst : Skips parser progress)
    (hnext : ∀ a, Reads lo trees (progress || hasRead) (next a) hasReadEnd final) :
    Reads lo trees hasRead (parser >>= next) hasReadEnd final :=
  fun kind ↦ (hfirst kind lo trees hasRead).bind hnext

theorem Skips.pure (a : α) : Skips (Pure.pure a) false :=
  fun _ _ _ _ ↦ ReadsAt.pure rfl id

theorem skips_bump : Skips Parser.bump false := by
  refine fun kind lo trees hasRead ↦ ⟨fun h _ hrun ↦ ?_⟩
  obtain ⟨rest, htokens, rfl⟩ := Parser.bump_eq_ok hrun
  exact (h.past htokens).weaken

theorem skips_expect (h : wanted ≠ .semicolon) : Skips (Parser.expect wanted) true := by
  refine fun kind lo trees hasRead ↦ ⟨fun {input origin state token state'} hlayout _ hrun ↦ ?_⟩
  obtain ⟨hkind, rest, htokens, rfl⟩ := Parser.expectAs_eq_ok hrun
  have hpast := hlayout.past htokens
  rw [hkind, decide_eq_true h] at hpast
  exact hpast

theorem skips_expect_semicolon : Skips (Parser.expect .semicolon) false := by
  refine fun kind lo trees hasRead ↦ ⟨fun h _ hrun ↦ ?_⟩
  obtain ⟨_, rest, htokens, rfl⟩ := Parser.expectAs_eq_ok hrun
  exact (h.past htokens).weaken

theorem skips_eat (wanted : TokenKind) : Skips (Parser.eat wanted) false := by
  refine fun kind lo trees hasRead ↦ ⟨fun h _ hrun ↦ ?_⟩
  obtain ⟨_, rfl⟩ | ⟨_, token, rest, htokens, _, rfl⟩ := Parser.eat_eq_ok hrun
  · exact h
  · exact (h.past htokens).weaken

theorem skips_separator : Skips Parser.separator false := by
  refine fun kind lo trees hasRead ↦ ?_
  refine (skips_eat .semicolon kind lo trees hasRead).bind fun isThere ↦
    Reads.ite (Reads.pure rfl id) ?_
  exact .looking (looks_isNext _) fun _ ↦ .looking (looks_isNext _) fun _ ↦
    .looking looks_isDone fun _ ↦ .ite (.pure rfl id) .fail

/-- Whether a token that is no terminator was there tells whether something was read. -/
theorem Reads.eat {next : Bool → Parser β} (h : wanted ≠ .semicolon)
    (hthere : Reads lo trees true (next true) hasReadEnd final)
    (hmissing : Reads lo trees hasRead (next false) hasReadEnd final) :
    Reads lo trees hasRead (Parser.eat wanted >>= next) hasReadEnd final := by
  refine fun kind ↦ ⟨fun hlayout _ hrun ↦ ?_⟩
  obtain ⟨isThere, middle, hrun, hrest⟩ := Parser.bind_eq_ok hrun
  obtain ⟨rfl, rfl⟩ | ⟨rfl, token, rest, htokens, hkind, rfl⟩ := Parser.eat_eq_ok hrun
  · exact (hmissing _).layout hlayout rfl hrest
  · have hpast := hlayout.past htokens
    rw [hkind, decide_eq_true h] at hpast
    exact (hthere _).layout hpast rfl hrest

/-! ### Looking at the next token -/

theorem Reads.peek {next : Option TokenKind → Parser β}
    (hnext : ∀ kind, ReadsAt kind lo trees hasRead (next kind) hasReadEnd final) :
    Reads lo trees hasRead (Parser.peek? >>= next) hasReadEnd final := by
  refine fun kind ↦ ⟨fun hlayout hkind hrun ↦ ?_⟩
  obtain ⟨found, middle, hpeek, hrest⟩ := Parser.bind_eq_ok hrun
  cases hpeek
  exact (hnext _).layout hlayout rfl hrest

theorem Builds.peek {next : Option TokenKind → Parser β} {built : β → List Node}
    (hnext : ∀ kind, BuildsAt kind (next kind) progress built) :
    Builds (Parser.peek? >>= next) progress built :=
  fun kind lo trees hasRead ↦ Reads.peek (fun kind ↦ hnext kind lo trees hasRead) kind

/-- A token that is known to be no terminator. -/
theorem ReadsAt.bumping {next : Token → Parser β} (h : wanted ≠ .semicolon)
    (hnext : ∀ token, Reads lo trees true (next token) hasReadEnd final) :
    ReadsAt (some wanted) lo trees hasRead (Parser.bump >>= next) hasReadEnd final := by
  refine ⟨fun hlayout hkind hrun ↦ ?_⟩
  obtain ⟨token, middle, hbump, hrest⟩ := Parser.bind_eq_ok hrun
  obtain ⟨rest, htokens, rfl⟩ := Parser.bump_eq_ok hbump
  rw [htokens] at hkind
  obtain rfl : token.kind = wanted := Option.some.inj hkind
  have hpast := hlayout.past htokens
  rw [decide_eq_true h] at hpast
  exact (hnext token _).layout hpast rfl hrest

/-- What a rule lays out from its first token on stands behind every run. -/
theorem Builds.fromFirst {rule : Token → ParseInput → Parser α}
    (h : ∀ token input, Reads (input.entry.pos token.offset) [] false (rule token input)
      (fun _ ↦ progress) built) :
    Builds (do let token ← Parser.bump; rule token (← read)) progress built := by
  refine fun kind lo trees hasRead ↦ ⟨fun {input origin state a state'} hlayout _ hrun ↦ ?_⟩
  obtain ⟨token, middle, hbump, hrun⟩ := Parser.bind_eq_ok hrun
  obtain ⟨rest, htokens, rfl⟩ := Parser.bump_eq_ok hbump
  obtain ⟨_, middle, hread, hrun⟩ := Parser.bind_eq_ok hrun
  cases hread
  have hwithin := hlayout.sound.placed.within token (by rw [htokens]; exact List.mem_cons_self)
  have hpos : input.entry.pos token.offset = state.front input := by
    rw [hlayout.sound.pos_of_le ((Nat.le_add_right _ _).trans hwithin), ParseState.front, htokens]
    rfl
  have hfresh := (hlayout.fresh.past htokens).weaken
  rw [← hpos] at hfresh
  have hend := (h token input _).layout hfresh rfl hrun
  rw [hpos] at hend
  exact hlayout.join hend

/-! ### Levels -/

theorem Layout.atLevel (h : Layout input origin lo hasRead trees state) (level : Int) :
    Layout input origin lo hasRead trees { state with level := level } :=
  ⟨⟨h.sound.size, h.sound.placed, h.sound.lastStop_le, h.sound.names⟩, h.lastStop_le,
    h.nextIndex_le, h.run, h.lo_le, h.lo_lt⟩

theorem Builds.withLevel (h : Builds parser progress built) (level : Int → Int) :
    Builds (Parser.withLevel level parser) progress built := by
  refine fun kind lo trees hasRead ↦ ⟨fun {input origin state a state'} hlayout hkind hrun ↦ ?_⟩
  obtain ⟨_, _, hget, hrun⟩ := Parser.bind_eq_ok hrun
  cases hget
  obtain ⟨_, _, hset, hrun⟩ := Parser.bind_eq_ok hrun
  cases hset
  obtain ⟨_, _, hparser, hrun⟩ := Parser.bind_eq_ok hrun
  obtain ⟨_, _, hset, hrun⟩ := Parser.bind_eq_ok hrun
  cases hset
  cases hrun
  have hthere := hlayout.atLevel (level state.level)
  exact ((h kind lo trees hasRead).layout hthere hkind hparser).atLevel _

theorem Builds.nested (h : Builds parser progress built) :
    Builds (Parser.nested parser) progress built := h.withLevel _

/-! ### Nodes -/

/-- The state after the next node was made. -/
def ParseState.counted (state : ParseState) : ParseState :=
  { state with nextIndex := state.nextIndex + 1 }

theorem Layout.counted {trees' : List Node} (h : Layout input origin lo hasRead trees state)
    (hrun : Run input origin.nextIndex (state.nextIndex + 1) lo (state.reach input) trees') :
    Layout input origin lo hasRead trees' state.counted :=
  ⟨⟨h.sound.size, h.sound.placed, h.sound.lastStop_le, h.sound.names⟩, h.lastStop_le,
    h.nextIndex_le.trans (Nat.le_succ _), hrun, h.lo_le, h.lo_lt⟩

/-- The identity that the next node gets. -/
def ParseState.nextId (input : ParseInput) (state : ParseState) : NodeId :=
  ⟨input.space, input.entry.base, state.nextIndex⟩

/-- The node has the given place and children and is no name. -/
structure Node.Around (node : Node) (info : NodeInfo) (trees : List Node) : Prop where
  info_eq : node.info = info
  children_eq : node.children = trees
  ident_eq : node.ident? = none

/-- A node from the position where a run started to the end of what was read takes in the run. -/
theorem Reads.nodeFrom {next : NodeInfo → Parser β} (view : NodeInfo → Node)
    (hview : ∀ info, (view info).Around info trees)
    (hnext : ∀ info, Reads lo [view info] true (next info) hasReadEnd final) :
    Reads lo trees true (Parser.nodeFrom lo >>= next) hasReadEnd final := by
  refine fun kind ↦ ⟨fun {input origin state b state'} hlayout _ hrun ↦ ?_⟩
  obtain ⟨info, middle, hnode, hrest⟩ := Parser.bind_eq_ok hrun
  obtain ⟨rfl, rfl⟩ : info = ⟨state.nextId input, ⟨lo, input.entry.pos state.lastStop⟩⟩ ∧
      middle = state.counted := by cases hnode; exact ⟨rfl, rfl⟩
  rw [hlayout.sound.pos_lastStop] at hrest
  refine (hnext _ _).layout (hlayout.counted ?_) rfl hrest
  obtain ⟨hinfo, hchildren, hident⟩ := hview ⟨state.nextId input, ⟨lo, state.reach input⟩⟩
  have hrun : Run input origin.nextIndex state.nextIndex lo (state.reach input)
      ([] ++ trees ++ []) := by
    rw [List.append_nil]
    exact hlayout.run
  have hlt := hlayout.lo_lt rfl
  refine hrun.gather hlayout.nextIndex_le hchildren hident (by rw [Node.id, hinfo]; rfl)
    ?_ ?_ ?_ ?_ (by simp) (by simp)
  all_goals rw [Node.span, hinfo]
  · exact hlt
  · exact hlayout.run.within

/-- A rule that ends with the node over all it has read. -/
theorem Reads.close {make : NodeInfo → α} {view : α → Node}
    (hview : ∀ info, (view (make info)).Around info trees) :
    Reads lo trees true (do return make (← Parser.nodeFrom lo)) (fun _ ↦ true) fun a ↦ [view a] :=
  Reads.nodeFrom (fun info ↦ view (make info)) hview fun _ ↦ .pure rfl id

/-- The span from the start of one of some trees to the end of one of them that holds them all. -/
structure Hull (span : Span) (trees : List Node) : Prop where
  within : ∀ tree ∈ trees, span.start ≤ tree.span.start ∧ tree.span.stop ≤ span.stop
  starts : ∃ tree ∈ trees, tree.span.start = span.start
  stops : ∃ tree ∈ trees, tree.span.stop = span.stop

theorem hull_self (tree : Node) : Hull tree.span [tree] :=
  ⟨by simp, by simp, by simp⟩

theorem hull_cover (first second : Node) :
    Hull (first.span.cover second.span) [first, second] where
  within := by
    simp only [List.forall_mem_cons, Span.cover]
    exact ⟨⟨min_le_left _ _, le_max_left _ _⟩, ⟨min_le_right _ _, le_max_right _ _⟩, by simp⟩
  starts := by
    rcases min_choice first.span.start second.span.start with h | h
    · exact ⟨first, by simp, h.symm⟩
    · exact ⟨second, by simp, h.symm⟩
  stops := by
    rcases max_choice first.span.stop second.span.stop with h | h
    · exact ⟨first, by simp, h.symm⟩
    · exact ⟨second, by simp, h.symm⟩

/-- Trees of a run are held by the span from the start of the first to the end of the last. -/
theorem Run.hull {first last hi : Nat} {head tail : Node}
    (h : Run input first last lo hi trees) (hhead : trees.head? = some head)
    (htail : trees.getLast? = some tail) : Hull ⟨head.span.start, tail.span.stop⟩ trees := by
  obtain ⟨rest, rfl⟩ := List.head?_eq_some_iff.1 hhead
  obtain ⟨front, hfront⟩ := List.getLast?_eq_some_iff.1 htail
  have hlt : ∀ tree ∈ head :: rest, tree.span.start < tree.span.stop := fun tree ↦ h.span_lt
  have hmem : tail ∈ head :: rest := by
    rw [hfront]
    exact List.mem_append_right _ List.mem_cons_self
  refine ⟨fun tree htree ↦ ⟨?_, ?_⟩, ⟨head, List.mem_cons_self, rfl⟩, tail, hmem, rfl⟩
  · rcases List.mem_cons.1 htree with rfl | hrest
    · exact le_rfl
    · exact (hlt head List.mem_cons_self).le.trans ((List.pairwise_cons.1 h.ordered).1 tree hrest)
  · have hordered := h.ordered
    rw [hfront] at htree hordered
    rcases List.mem_append.1 htree with hin | hin
    · exact ((List.pairwise_append.1 hordered).2.2 tree hin tail (List.mem_singleton_self _)).trans
        (hlt tail hmem).le
    · rw [List.mem_singleton.1 hin]

/-- A node over neighbours in a run takes them in. -/
theorem Reads.node {next : NodeInfo → Parser β} {span : Span} (view : NodeInfo → Node)
    (hview : ∀ info, (view info).Around info children)
    (hhull : ∀ {input first last lo hi}, Run input first last lo hi children → Hull span children)
    (hnext : ∀ info, Reads lo (left ++ view info :: right) hasRead (next info) hasReadEnd final) :
    Reads lo (left ++ children ++ right) hasRead (Parser.node span >>= next) hasReadEnd final := by
  refine fun kind ↦ ⟨fun {input origin state b state'} hlayout _ hrun ↦ ?_⟩
  obtain ⟨info, middle, hnode, hrest⟩ := Parser.bind_eq_ok hrun
  obtain ⟨rfl, rfl⟩ : info = ⟨state.nextId input, span⟩ ∧ middle = state.counted := by
    cases hnode
    exact ⟨rfl, rfl⟩
  refine (hnext _ _).layout (hlayout.counted ?_) rfl hrest
  obtain ⟨hinfo, hchildren, hident⟩ := hview ⟨state.nextId input, span⟩
  obtain ⟨hwithin, ⟨head, hhead, hstart⟩, tail, htail, hstop⟩ := hhull hlayout.run.part
  have hsub : ∀ {tree}, tree ∈ children → tree ∈ left ++ children ++ right := fun htree ↦
    List.mem_append_left _ (List.mem_append_right _ htree)
  obtain ⟨hordered, -, hbehind⟩ := List.pairwise_append.1 hlayout.run.ordered
  obtain ⟨-, -, hbefore⟩ := List.pairwise_append.1 hordered
  refine Run.gather hlayout.run hlayout.nextIndex_le hchildren hident
    (by rw [Node.id, hinfo]; rfl) ?_ ?_ ?_ ?_ ?_ ?_
  all_goals rw [Node.span, hinfo]
  · exact hstart.symm.trans_lt ((hlayout.run.span_lt (hsub hhead)).trans_le (hwithin head hhead).2)
  · exact (hlayout.run.within head (hsub hhead)).1.trans_eq hstart
  · exact hstop.symm.trans_le (hlayout.run.within tail (hsub htail)).2
  · exact hwithin
  · exact fun tree htree ↦ (hbefore tree htree head hhead).trans_eq hstart
  · exact fun tree htree ↦ hstop.symm.trans_le
      (hbehind tail (List.mem_append_right _ htail) tree htree)

/-- A node over the end of a run. -/
theorem Reads.nodeLast {next : NodeInfo → Parser β} {span : Span} (view : NodeInfo → Node)
    (hview : ∀ info, (view info).Around info children)
    (hhull : ∀ {input first last lo hi}, Run input first last lo hi children → Hull span children)
    (hnext : ∀ info, Reads lo (left ++ [view info]) hasRead (next info) hasReadEnd final) :
    Reads lo (left ++ children) hasRead (Parser.node span >>= next) hasReadEnd final := by
  have hnode : Reads lo (left ++ children ++ []) hasRead (Parser.node span >>= next) hasReadEnd
      final := Reads.node view hview hhull hnext
  rwa [List.append_nil] at hnode

/-- A node in a run gives way to its children. -/
theorem Reads.splice {node : Node} {hasRead' : α → Bool}
    (h : Reads lo (left ++ node.children ++ right) hasRead parser hasRead' built) :
    Reads lo (left ++ node :: right) hasRead parser hasRead' built :=
  fun kind ↦ ⟨fun hlayout hkind hrun ↦
    (h kind).layout { hlayout with run := hlayout.run.splice } hkind hrun⟩

/-! ### Leaves -/

/-- A leaf on the text of the first token. -/
theorem Layout.leaf {node : Node} (h : Layout input origin lo hasRead trees state)
    (htokens : state.tokens = token :: rest) (hkind : token.kind ≠ .semicolon)
    (hchildren : node.children = [])
    (hinfo : node.info = ⟨state.nextId input,
      ⟨input.entry.pos token.offset, input.entry.pos token.stop⟩⟩)
    (hident : ∀ ident, node.ident? = some ident → ident.name = token.text) :
    Layout input origin lo true (trees ++ [node]) (state.past token).counted := by
  have hpast := h.past htokens
  rw [decide_eq_true hkind] at hpast
  have hplaced : Placed input.chars state.lastStop (token :: rest) := htokens ▸ h.sound.placed
  have hlt := hplaced.nonempty token List.mem_cons_self hkind
  have hwithin := hplaced.within token List.mem_cons_self
  have hspelled := hplaced.spelled token List.mem_cons_self hkind
  have hlength : token.stop = token.offset + byteLength token.text.toList := by
    rw [Token.stop, byteLength_toList]
  have hspan : node.span = ⟨input.entry.base + token.offset, input.entry.base + token.stop⟩ := by
    rw [Node.span, hinfo, h.sound.pos_of_le hwithin, h.sound.pos_of_le (hlt.le.trans hwithin)]
  have hfront : state.front input = input.entry.base + token.offset := by
    rw [ParseState.front, htokens]
    rfl
  have hleaf : Run input state.nextIndex (state.nextIndex + 1) (state.front input)
      ((state.past token).reach input) [node] := by
    refine Run.leaf hchildren le_rfl (by rw [Node.id, hinfo]; rfl) ?_ ?_ ?_ ?_
    · rw [hspan]
      exact Nat.add_lt_add_left hlt _
    · rw [hspan, hfront]
    · rw [hspan]
      exact le_rfl
    · intro ident hname
      refine ⟨token.offset, ?_, ?_⟩
      · rw [hspan, hident ident hname, hlength, Nat.add_assoc]
      · rw [hident ident hname]
        exact hspelled
  refine hpast.counted (h.run.append hleaf h.sound.reach_le_front h.lo_le ?_ h.nextIndex_le
    (Nat.le_succ _))
  exact Nat.add_le_add_left ((hplaced.ahead token List.mem_cons_self).trans hlt.le) _

theorem builds_ident : Builds Parser.ident true fun ident ↦ [.ident ident] := by
  refine fun kind lo trees hasRead ↦ ⟨fun hlayout _ hrun ↦ ?_⟩
  obtain ⟨token, middle, hexpect, hrun⟩ := Parser.bind_eq_ok hrun
  obtain ⟨hkind, rest, htokens, rfl⟩ := Parser.expectAs_eq_ok hexpect
  cases hrun
  exact hlayout.leaf htokens (by rw [hkind]; decide) rfl rfl fun ident hname ↦ by
    cases hname
    rfl

theorem buildsAt_bumpIdent (h : wanted ≠ .semicolon) :
    BuildsAt (some wanted) (do Parser.identOf (← Parser.bump)) true
      fun ident ↦ [.ident ident] := by
  refine fun lo trees hasRead ↦ ⟨fun hlayout hkind hrun ↦ ?_⟩
  obtain ⟨token, middle, hbump, hrun⟩ := Parser.bind_eq_ok hrun
  obtain ⟨rest, htokens, rfl⟩ := Parser.bump_eq_ok hbump
  rw [htokens] at hkind
  obtain rfl : token.kind = wanted := Option.some.inj hkind
  cases hrun
  exact hlayout.leaf htokens h rfl rfl fun ident hname ↦ by
    cases hname
    rfl

theorem buildsAt_bumpLiteral (literalKind : LiteralKind) (h : wanted ≠ .semicolon) :
    BuildsAt (some wanted) (do Parser.literalOf (← Parser.bump) literalKind) true
      fun literal ↦ [.expr (.literal literal)] := by
  refine fun lo trees hasRead ↦ ⟨fun hlayout hkind hrun ↦ ?_⟩
  obtain ⟨token, middle, hbump, hrun⟩ := Parser.bind_eq_ok hrun
  obtain ⟨rest, htokens, rfl⟩ := Parser.bump_eq_ok hbump
  rw [htokens] at hkind
  obtain rfl : token.kind = wanted := Option.some.inj hkind
  cases hrun
  exact hlayout.leaf htokens h rfl rfl fun ident hname ↦ by
    cases hname

/-- A literal of a kind that must come next. -/
theorem builds_expectLiteral (literalKind : LiteralKind) (words : Wanted)
    (h : wanted ≠ .semicolon) :
    Builds (do Parser.literalOf (← Parser.expectAs wanted words) literalKind) true
      fun literal ↦ [.expr (.literal literal)] := by
  refine fun kind lo trees hasRead ↦ ⟨fun hlayout _ hrun ↦ ?_⟩
  obtain ⟨token, middle, hexpect, hrun⟩ := Parser.bind_eq_ok hrun
  obtain ⟨hkind, rest, htokens, rfl⟩ := Parser.expectAs_eq_ok hexpect
  cases hrun
  exact hlayout.leaf htokens (by rw [hkind]; exact h) rfl rfl fun ident hname ↦ by cases hname

end Steps

end PackageAtlas
