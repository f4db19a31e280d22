import Mathlib.Order.WellFounded
import PackageAtlas.Parse.File

/-!
Progress of parsers. A parser goes ahead when it leaves an end of the tokens it was given and the
composite-literal level as it was; it reads when what it leaves is shorter. Two parsers agree below
a bound when they do the same and go ahead wherever fewer tokens are left (`Agrees`). Behind a
parser that reads, agreement is needed at fewer tokens only (`Agrees.past`), which is what the
recursion between the rules of a grammar comes down to.
-/

set_option autoImplicit false
set_option relaxedAutoImplicit false

namespace PackageAtlas

/-- A state that a parser may leave behind. The flag says whether it has read for sure. -/
structure ParseState.Ahead (reads : Bool) (state state' : ParseState) : Prop where
  suffix : state'.tokens <:+ state.tokens
  lt : reads = true → state'.tokens.length < state.tokens.length
  level : state'.level = state.level

namespace ParseState.Ahead

variable {reads reads' : Bool} {state middle state' : ParseState}

theorem of_eq (htokens : state'.tokens = state.tokens) (hlevel : state'.level = state.level) :
    state.Ahead false state' :=
  ⟨htokens ▸ List.suffix_rfl, nofun, hlevel⟩

theorem le (h : state.Ahead reads state') : state'.tokens.length ≤ state.tokens.length :=
  h.suffix.length_le

theorem trans (h : state.Ahead reads middle) (h' : middle.Ahead reads' state') :
    state.Ahead (reads || reads') state' where
  suffix := h'.suffix.trans h.suffix
  lt hreads := by
    rcases Bool.or_eq_true_iff.1 hreads with hreads | hreads
    · exact h'.le.trans_lt (h.lt hreads)
    · exact (h'.lt hreads).trans_le h.le
  level := h'.level.trans h.level

theorem relax (h : state.Ahead true state') : state.Ahead reads state' :=
  { h with lt := fun _ ↦ h.lt rfl }

theorem weaken (h : state.Ahead reads state') : state.Ahead false state' :=
  { h with lt := nofun }

/-- Past the first token. -/
theorem advance {token : Token} {rest : List Token} (htokens : state.tokens = token :: rest) :
    state.Ahead reads { state with tokens := state.tokens.tail, lastStop := token.stop } where
  suffix := List.tail_suffix _
  lt _ := by rw [htokens]; exact Nat.lt_succ_self _
  level := rfl

end ParseState.Ahead

namespace Parser

variable {α β : Type}

/-- An outcome that is ahead of a state, or a complaint other than that calls are nested too
deep. -/
def Proper (reads : Bool) (state : ParseState) : Except ParseError (α × ParseState) → Prop
  | .ok (_, state') => state.Ahead reads state'
  | .error error => ∀ found, error.problem ≠ .unexpected .nestingTooDeep found

/-- Where fewer than so many tokens are left, the parsers have the same outcome, a proper one. -/
def Agrees (input : ParseInput) (bound : Nat) (reads : Bool) (p p' : Parser α) : Prop :=
  ∀ state : ParseState, state.tokens.length < bound →
    p input state = p' input state ∧ Proper reads state (p input state)

/-- The parser always has a result, and leaves the tokens and the level alone. -/
def KeepsTokens (input : ParseInput) (p : Parser α) : Prop :=
  ∀ state, ∃ a state', p input state = .ok (a, state') ∧ state'.tokens = state.tokens ∧
    state'.level = state.level

/-- Every outcome of the parser is a proper one. -/
def GoesAhead (reads : Bool) (p : Parser α) : Prop :=
  ∀ input state, Proper reads state (p input state)

variable {input : ParseInput} {bound : Nat} {reads reads' : Bool} {p p' : Parser α}
  {next next' : α → Parser β} {state middle : ParseState}

theorem Proper.behind {outcome : Except ParseError (α × ParseState)}
    (h : Proper reads' middle outcome) (hahead : state.Ahead reads middle) :
    Proper (reads || reads') state outcome := by
  cases outcome with
  | error error => exact h
  | ok result => exact hahead.trans h

theorem Proper.relax {outcome : Except ParseError (α × ParseState)}
    (h : Proper true state outcome) : Proper reads state outcome := by
  cases outcome with
  | error error => exact h
  | ok result => exact ParseState.Ahead.relax h

theorem Proper.weaken {outcome : Except ParseError (α × ParseState)}
    (h : Proper reads state outcome) : Proper false state outcome := by
  cases outcome with
  | error error => exact h
  | ok result => exact ParseState.Ahead.weaken h

theorem GoesAhead.of_agrees (h : ∀ input bound, Agrees input (bound + 1) reads p p) :
    GoesAhead reads p :=
  fun input state ↦ (h input state.tokens.length state (Nat.lt_succ_self _)).2

theorem run_bind_ok {a : α} (h : p input state = .ok (a, middle)) :
    (p >>= next) input state = next a input middle := by
  change (p input state >>= fun result ↦ next result.1 input result.2) = _
  rw [h]
  rfl

theorem run_bind_error {error : ParseError} (h : p input state = .error error) :
    (p >>= next) input state = .error error := by
  change (p input state >>= fun result ↦ next result.1 input result.2) = _
  rw [h]
  rfl

/-! ### Sequences -/

namespace Agrees

theorem of_le {bound' : Nat} (h : Agrees input bound reads p p') (hle : bound' ≤ bound) :
    Agrees input bound' reads p p' :=
  fun state hlt ↦ h state (hlt.trans_le hle)

theorem relax (h : Agrees input bound true p p') : Agrees input bound reads p p' :=
  fun state hlt ↦ ⟨(h state hlt).1, (h state hlt).2.relax⟩

theorem weaken (h : Agrees input bound reads p p') : Agrees input bound false p p' :=
  fun state hlt ↦ ⟨(h state hlt).1, (h state hlt).2.weaken⟩

theorem pure (a : α) : Agrees input bound false (Pure.pure a) (Pure.pure a) :=
  fun _ _ ↦ ⟨rfl, .of_eq rfl rfl⟩

/-- A sequence agrees when the second parsers do in the states that the first ones lead to. -/
theorem sequence {reads'' : Bool} (h : Agrees input bound reads p p')
    (hnext : ∀ a (state state' : ParseState),
      state.tokens.length < bound → state.Ahead reads state' →
      next a input state' = next' a input state' ∧ Proper reads' state' (next a input state'))
    (hreads : reads'' = true → (reads || reads') = true) :
    Agrees input bound reads'' (p >>= next) (p' >>= next') := by
  intro state hlt
  obtain ⟨hsame, hproper⟩ := h state hlt
  cases hrun : p input state with
  | error error =>
    rw [hrun] at hsame hproper
    rw [run_bind_error hrun, run_bind_error hsame.symm]
    exact ⟨rfl, hproper⟩
  | ok result =>
    obtain ⟨a, middle⟩ := result
    rw [hrun] at hsame hproper
    rw [run_bind_ok hrun, run_bind_ok hsame.symm]
    obtain ⟨hsame', hproper'⟩ := hnext a state middle hlt hproper
    refine ⟨hsame', ?_⟩
    have hbehind := hproper'.behind hproper
    cases reads'' with
    | false => exact hbehind.weaken
    | true => exact hreads rfl ▸ hbehind

theorem bind (h : Agrees input bound reads p p')
    (hnext : ∀ a, Agrees input bound false (next a) (next' a)) :
    Agrees input bound reads (p >>= next) (p' >>= next') :=
  h.sequence (fun a _ state' hlt hahead ↦ hnext a state' (hahead.le.trans_lt hlt))
    fun hreads ↦ by rw [hreads, Bool.true_or]

/-- Behind a parser that reads, fewer tokens are left. -/
theorem past (h : Agrees input (bound + 1) true p p')
    (hnext : ∀ a, Agrees input bound false (next a) (next' a)) :
    Agrees input (bound + 1) reads (p >>= next) (p' >>= next') :=
  h.sequence (fun a _ state' hlt hahead ↦
    hnext a state' ((hahead.lt rfl).trans_le (Nat.le_of_lt_succ hlt))) fun _ ↦ rfl

theorem keeping (h : KeepsTokens input p)
    (hnext : ∀ a, Agrees input bound reads (next a) (next' a)) :
    Agrees input bound reads (p >>= next) (p >>= next') := by
  intro state hlt
  obtain ⟨a, middle, hrun, htokens, hlevel⟩ := h state
  rw [run_bind_ok hrun, run_bind_ok hrun]
  obtain ⟨hsame, hproper⟩ := hnext a middle (htokens ▸ hlt)
  exact ⟨hsame, Bool.false_or reads ▸ hproper.behind (.of_eq htokens hlevel)⟩

theorem map {f : α → β} (h : Agrees input bound reads p p') :
    Agrees input bound reads (f <$> p) (f <$> p') := by
  rw [map_eq_pure_bind, map_eq_pure_bind]
  exact h.bind fun _ ↦ .pure _

theorem ite {c : Prop} [Decidable c] {q q' : Parser α} (h : Agrees input bound reads p p')
    (h' : Agrees input bound reads q q') :
    Agrees input bound reads (if c then p else q) (if c then p' else q') := by
  split
  · exact h
  · exact h'

end Agrees

/-! ### Complaints -/

theorem fail_eq_error (complaint : Complaint) (input : ParseInput) (state : ParseState) :
    ∃ location found, (fail complaint : Parser α) input state =
      .error ⟨location, .unexpected complaint found⟩ := by
  obtain ⟨tokens, lastStop, level, nextIndex⟩ := state
  cases tokens with
  | nil => exact ⟨_, _, rfl⟩
  | cons token rest => exact ⟨_, _, rfl⟩

theorem agrees_fail {complaint : Complaint} (h : complaint ≠ .nestingTooDeep) :
    Agrees input bound reads (fail complaint : Parser α) (fail complaint) := by
  intro state _
  obtain ⟨location, found, hfail⟩ := fail_eq_error (α := α) complaint input state
  rw [hfail]
  refine ⟨rfl, fun found' heq ↦ h ?_⟩
  cases heq
  rfl

theorem Agrees.failing {complaint : Complaint} (h : complaint ≠ .nestingTooDeep) :
    Agrees input bound reads (fail complaint >>= next) (fail complaint >>= next') := by
  have hfail : Agrees input bound reads (fail complaint : Parser α) (fail complaint) :=
    agrees_fail h
  intro state hlt
  obtain ⟨location, found, hrun⟩ := fail_eq_error (α := α) complaint input state
  have hproper := (hfail state hlt).2
  rw [hrun] at hproper
  rw [run_bind_error hrun, run_bind_error hrun]
  exact ⟨rfl, hproper⟩

/-! ### Looks and nodes -/

namespace KeepsTokens

theorem pure (a : α) : KeepsTokens input (Pure.pure a : Parser α) := fun _ ↦ ⟨_, _, rfl, rfl, rfl⟩

theorem bind (h : KeepsTokens input p) (hnext : ∀ a, KeepsTokens input (next a)) :
    KeepsTokens input (p >>= next) := by
  intro state
  obtain ⟨a, middle, hrun, htokens, hlevel⟩ := h state
  obtain ⟨b, state', hrest, htokens', hlevel'⟩ := hnext a middle
  exact ⟨b, state', (run_bind_ok hrun).trans hrest, htokens'.trans htokens, hlevel'.trans hlevel⟩

theorem agrees (h : KeepsTokens input p) : Agrees input bound false p p := by
  intro state _
  obtain ⟨a, state', hrun, htokens, hlevel⟩ := h state
  rw [hrun]
  exact ⟨rfl, .of_eq htokens hlevel⟩

theorem mapM {f : α → Parser β} (h : ∀ a, KeepsTokens input (f a)) (list : List α) :
    KeepsTokens input (list.mapM f) := by
  induction list with
  | nil => exact .pure []
  | cons a rest ih =>
    rw [List.mapM_cons]
    exact (h a).bind fun _ ↦ ih.bind fun _ ↦ .pure _

end KeepsTokens

theorem keeps_read : KeepsTokens input (read : Parser ParseInput) := fun _ ↦ ⟨_, _, rfl, rfl, rfl⟩

theorem keeps_get : KeepsTokens input (get : Parser ParseState) := fun _ ↦ ⟨_, _, rfl, rfl, rfl⟩

theorem keeps_current? : KeepsTokens input current? := fun _ ↦ ⟨_, _, rfl, rfl, rfl⟩

theorem keeps_peek? : KeepsTokens input peek? := fun _ ↦ ⟨_, _, rfl, rfl, rfl⟩

theorem keeps_peekSecond? : KeepsTokens input peekSecond? := fun _ ↦ ⟨_, _, rfl, rfl, rfl⟩

theorem keeps_isNext (kind : TokenKind) : KeepsTokens input (isNext kind) :=
  fun _ ↦ ⟨_, _, rfl, rfl, rfl⟩

theorem keeps_isDone : KeepsTokens input isDone := fun _ ↦ ⟨_, _, rfl, rfl, rfl⟩

theorem keeps_offset : KeepsTokens input offset := by
  refine keeps_current?.bind fun token ↦ ?_
  cases token with
  | none => exact keeps_read.bind fun _ ↦ .pure _
  | some token => exact .pure _

theorem keeps_start : KeepsTokens input start :=
  keeps_read.bind fun _ ↦ keeps_offset.bind fun _ ↦ .pure _

theorem keeps_node (span : Span) : KeepsTokens input (node span) := fun _ ↦ ⟨_, _, rfl, rfl, rfl⟩

theorem keeps_nodeFrom (start : Nat) : KeepsTokens input (nodeFrom start) :=
  keeps_read.bind fun _ ↦ keeps_get.bind fun _ ↦ keeps_node _

theorem keeps_nodeOf (token : Token) : KeepsTokens input (nodeOf token) :=
  keeps_read.bind fun _ ↦ keeps_node _

theorem keeps_identOf (token : Token) : KeepsTokens input (identOf token) :=
  (keeps_nodeOf token).bind fun _ ↦ .pure _

theorem keeps_literalOf (token : Token) (kind : LiteralKind) :
    KeepsTokens input (literalOf token kind) :=
  (keeps_nodeOf token).bind fun _ ↦ .pure _

theorem keeps_docBefore (offset : Nat) : KeepsTokens input (docBefore offset) := by
  refine keeps_read.bind fun input ↦ ?_
  split <;> exact .pure _

/-! ### Tokens -/

theorem agrees_bump : Agrees input bound true bump bump := by
  intro state hlt
  refine ⟨rfl, ?_⟩
  unfold bump
  rw [run_bind_ok (rfl : current? input state = .ok (state.tokens.head?, state))]
  cases htokens : state.tokens with
  | nil =>
    have hfail : Agrees input bound true (fail .endOfFile : Parser Token) (fail .endOfFile) :=
      agrees_fail nofun
    exact (hfail state hlt).2
  | cons token rest => exact .advance htokens

theorem agrees_expectAs (kind : TokenKind) (wanted : Wanted) :
    Agrees input bound true (expectAs kind wanted) (expectAs kind wanted) :=
  .keeping (keeps_isNext kind) fun _ ↦ .ite agrees_bump (agrees_fail nofun)

theorem agrees_expect (kind : TokenKind) : Agrees input bound true (expect kind) (expect kind) :=
  agrees_expectAs kind _

theorem agrees_ident : Agrees input bound true ident ident :=
  (agrees_expectAs _ _).bind fun token ↦ (keeps_identOf token).agrees

/-- A token that may be there is read or left. -/
theorem eat_reads_or_leaves (kind : TokenKind) (input : ParseInput) (state : ParseState) :
    (∃ state', eat kind input state = .ok (true, state') ∧ state.Ahead true state') ∨
      eat kind input state = .ok (false, state) := by
  unfold eat
  rw [run_bind_ok (rfl : current? input state = .ok (state.tokens.head?, state))]
  cases htokens : state.tokens with
  | nil => exact .inr rfl
  | cons token rest =>
    simp only [List.head?_cons]
    split
    · exact .inl ⟨_, rfl, .advance htokens⟩
    · exact .inr rfl

/-- Behind a token that may be there, fewer tokens are left if it was. -/
theorem Agrees.eat {kind : TokenKind} {next next' : Bool → Parser β}
    (htrue : Agrees input bound false (next true) (next' true))
    (hfalse : Agrees input (bound + 1) reads (next false) (next' false)) :
    Agrees input (bound + 1) reads (eat kind >>= next) (eat kind >>= next') := by
  intro state hlt
  rcases eat_reads_or_leaves kind input state with ⟨state', hrun, hahead⟩ | hrun
  · rw [run_bind_ok hrun, run_bind_ok hrun]
    obtain ⟨hsame, hproper⟩ := htrue state' ((hahead.lt rfl).trans_le (Nat.le_of_lt_succ hlt))
    exact ⟨hsame, (hproper.behind hahead).relax⟩
  · rw [run_bind_ok hrun, run_bind_ok hrun]
    exact hfalse state hlt

theorem agrees_eat (kind : TokenKind) : Agrees input bound false (eat kind) (eat kind) := by
  intro state _
  rcases eat_reads_or_leaves kind input state with ⟨state', hrun, hahead⟩ | hrun
  · rw [hrun]
    exact ⟨rfl, hahead.weaken⟩
  · rw [hrun]
    exact ⟨rfl, .of_eq rfl rfl⟩

theorem agrees_separator : Agrees input bound false separator separator :=
  (agrees_eat _).bind fun _ ↦ .ite (.pure _) <| .keeping (keeps_isNext _) fun _ ↦
    .keeping (keeps_isNext _) fun _ ↦ .keeping keeps_isDone fun _ ↦
      .ite (.pure _) (agrees_fail nofun)

/-- The level is put back on success, and a complaint ends the parse. -/
theorem Agrees.withLevel (h : Agrees input bound reads p p') (level : Int → Int) :
    Agrees input bound reads (withLevel level p) (withLevel level p') := by
  intro state hlt
  obtain ⟨hsame, hproper⟩ := h { state with level := level state.level } hlt
  have hrun (q : Parser α) : Parser.withLevel level q input state =
      (q >>= fun result ↦ do
        modify fun state' ↦ { state' with level := state.level }
        return result) input { state with level := level state.level } := rfl
  rw [hrun, hrun]
  cases hp : p input { state with level := level state.level } with
  | error error =>
    rw [hp] at hsame hproper
    rw [run_bind_error hp, run_bind_error hsame.symm]
    exact ⟨rfl, hproper⟩
  | ok result =>
    rw [hp] at hsame hproper
    rw [run_bind_ok hp, run_bind_ok hsame.symm]
    exact ⟨rfl, ⟨hproper.suffix, hproper.lt, rfl⟩⟩

theorem Agrees.nested (h : Agrees input bound reads p p') :
    Agrees input bound reads (nested p) (nested p') := h.withLevel _

end Parser

end PackageAtlas
