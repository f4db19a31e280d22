import PackageAtlas.Proofs.Relocation.Tree

/-!
Parsers of relocated files. A parser carries a relocation over when its outcome for the relocated
file is the relocated outcome: the same tree with other identities and further on, the same tokens
left, or the same complaint about the file of the other name. Sequences carry over when their steps
do.
-/

set_option autoImplicit false
set_option relaxedAutoImplicit false

namespace PackageAtlas

namespace Relocation

variable {α β γ δ : Type}

def fileEntry (move : Relocation) (entry : FileEntry) : FileEntry :=
  { entry with name := move.name, base := move.pos entry.base }

def input (move : Relocation) (input : ParseInput) : ParseInput :=
  { input with space := move.space, entry := move.fileEntry input.entry }

def error (move : Relocation) (error : ParseError) : ParseError :=
  { error with location := { error.location with file := move.name } }

/-- The outcome of a step for the relocated file. -/
def outcome (move : Relocation) (f : α → β) :
    Except ParseError (α × ParseState) → Except ParseError (β × ParseState)
  | .ok (a, state) => .ok (f a, state)
  | .error error => .error (move.error error)

/-- The second parser does with the relocated file what the first one does with the file, up to a
function on results. -/
def Carries (move : Relocation) (f : α → β) (p : Parser α) (q : Parser β) : Prop :=
  ∀ input state, q (move.input input) state = move.outcome f (p input state)

variable {move : Relocation} {f : α → β} {g : γ → δ}

theorem pos_fileEntry (entry : FileEntry) (offset : Nat) :
    (move.fileEntry entry).pos offset = move.pos (entry.pos offset) :=
  Nat.add_right_comm ..

theorem location_fileEntry (entry : FileEntry) (pos : Nat) :
    (move.fileEntry entry).location (move.pos pos) =
      { entry.location pos with file := move.name } := by
  have hoffset : (move.fileEntry entry).offset (move.pos pos) = entry.offset pos :=
    Nat.add_sub_add_right ..
  unfold FileEntry.location
  rw [hoffset]
  rfl

/-! ### Sequences -/

theorem Carries.pure {a : α} {b : β} (h : b = f a) :
    move.Carries f (Pure.pure a) (Pure.pure b) := by
  intro input state
  rw [h]
  rfl

theorem Carries.bind {p : Parser α} {q : Parser β} {k : α → Parser γ} {l : β → Parser δ}
    (h : move.Carries f p q) (hk : ∀ a, move.Carries g (k a) (l (f a))) :
    move.Carries g (p >>= k) (q >>= l) := by
  intro input state
  change (q (move.input input) state >>= fun result ↦ l result.1 (move.input input) result.2) =
    move.outcome g (p input state >>= fun result ↦ k result.1 input result.2)
  rw [h input state]
  cases p input state with
  | error error => rfl
  | ok result => exact hk result.1 input result.2

theorem Carries.map {p : Parser α} {q : Parser β} {h : α → γ} {k : β → δ}
    (hp : move.Carries f p q) (hk : ∀ a, k (f a) = g (h a)) :
    move.Carries g (h <$> p) (k <$> q) := by
  rw [map_eq_pure_bind, map_eq_pure_bind]
  exact hp.bind fun a ↦ Carries.pure (hk a)

theorem Carries.ite {c : Prop} [Decidable c] {p p' : Parser α} {q q' : Parser β}
    (h : move.Carries f p q) (h' : move.Carries f p' q') :
    move.Carries f (if c then p else p') (if c then q else q') := by
  by_cases hc : c
  · rw [if_pos hc, if_pos hc]
    exact h
  · rw [if_neg hc, if_neg hc]
    exact h'

theorem Carries.mapM {ε ζ : Type} {i : ε → ζ} {p : ε → Parser α} {q : ζ → Parser β}
    (h : ∀ e, move.Carries f (p e) (q (i e))) (list : List ε) :
    move.Carries (List.map f) (list.mapM p) ((list.map i).mapM q) := by
  induction list with
  | nil => exact Carries.pure rfl
  | cons e rest ih =>
    rw [List.map_cons, List.mapM_cons, List.mapM_cons]
    exact (h e).bind fun a ↦ ih.bind fun list ↦ Carries.pure rfl

/-! ### Steps -/

theorem carries_get : move.Carries id (get : Parser ParseState) get := fun _ _ ↦ rfl

theorem carries_modify (change : ParseState → ParseState) :
    move.Carries id (modify change : Parser Unit) (modify change) := fun _ _ ↦ rfl

theorem carries_current? : move.Carries id Parser.current? Parser.current? := fun _ _ ↦ rfl

theorem carries_peek? : move.Carries id Parser.peek? Parser.peek? := fun _ _ ↦ rfl

theorem carries_peekSecond? : move.Carries id Parser.peekSecond? Parser.peekSecond? :=
  fun _ _ ↦ rfl

theorem carries_isNext (kind : TokenKind) :
    move.Carries id (Parser.isNext kind) (Parser.isNext kind) := fun _ _ ↦ rfl

theorem carries_isDone : move.Carries id Parser.isDone Parser.isDone := fun _ _ ↦ rfl

theorem carries_offset : move.Carries id Parser.offset Parser.offset := by
  unfold Parser.offset
  refine carries_current?.bind fun token ↦ ?_
  cases token with
  | none => exact fun _ _ ↦ rfl
  | some token => exact Carries.pure rfl

theorem carries_read : move.Carries move.input (read : Parser ParseInput) read := fun _ _ ↦ rfl

theorem carries_start : move.Carries move.pos Parser.start Parser.start := by
  unfold Parser.start
  exact carries_read.bind fun input ↦ carries_offset.bind fun offset ↦
    Carries.pure (pos_fileEntry input.entry offset)

theorem carries_throw {error error' : ParseError} (h : error' = move.error error) :
    move.Carries f (throw error) (throw error') := by
  intro input state
  rw [h]
  rfl

theorem carries_fail (f : α → β) (complaint : Complaint) :
    move.Carries f (Parser.fail complaint) (Parser.fail complaint) := by
  unfold Parser.fail
  refine carries_read.bind fun input ↦ carries_start.bind fun start ↦
    carries_current?.bind fun token ↦ carries_throw ?_
  exact congrArg (ParseError.mk · _) (location_fileEntry input.entry start)

theorem carries_advance (token : Token) :
    move.Carries id (Parser.advance token) (Parser.advance token) := fun _ _ ↦ rfl

theorem carries_bump : move.Carries id Parser.bump Parser.bump := by
  unfold Parser.bump
  refine carries_current?.bind fun token ↦ ?_
  cases token with
  | none => exact carries_fail id _
  | some token => exact (carries_advance token).bind fun _ ↦ Carries.pure rfl

theorem carries_eat (kind : TokenKind) : move.Carries id (Parser.eat kind) (Parser.eat kind) := by
  unfold Parser.eat
  refine carries_current?.bind fun token ↦ ?_
  cases token with
  | none => exact Carries.pure rfl
  | some token =>
    exact Carries.ite ((carries_advance token).bind fun _ ↦ Carries.pure rfl) (Carries.pure rfl)

theorem carries_expectAs (kind : TokenKind) (wanted : Wanted) :
    move.Carries id (Parser.expectAs kind wanted) (Parser.expectAs kind wanted) := by
  unfold Parser.expectAs
  exact (carries_isNext kind).bind fun _ ↦ Carries.ite carries_bump (carries_fail id _)

theorem carries_expect (kind : TokenKind) :
    move.Carries id (Parser.expect kind) (Parser.expect kind) :=
  carries_expectAs kind _

theorem carries_separator : move.Carries id Parser.separator Parser.separator := by
  unfold Parser.separator
  refine (carries_eat _).bind fun _ ↦ Carries.ite (Carries.pure rfl) ?_
  exact (carries_isNext _).bind fun _ ↦ (carries_isNext _).bind fun _ ↦ carries_isDone.bind fun _ ↦
    Carries.ite (Carries.pure rfl) (carries_fail id _)

theorem Carries.withLevel {p : Parser α} {q : Parser β} (h : move.Carries f p q)
    (level : Int → Int) :
    move.Carries f (Parser.withLevel level p) (Parser.withLevel level q) := by
  unfold Parser.withLevel
  exact carries_get.bind fun state ↦ (carries_modify _).bind fun _ ↦ h.bind fun result ↦
    (carries_modify _).bind fun _ ↦ Carries.pure rfl

theorem Carries.nested {p : Parser α} {q : Parser β} (h : move.Carries f p q) :
    move.Carries f (Parser.nested p) (Parser.nested q) := h.withLevel _

/-! ### Nodes -/

theorem carries_node (span : Span) :
    move.Carries move.info (Parser.node span) (Parser.node (move.span span)) := fun _ _ ↦ rfl

theorem carries_nodeFrom (start : Nat) :
    move.Carries move.info (Parser.nodeFrom start) (Parser.nodeFrom (move.pos start)) := by
  unfold Parser.nodeFrom
  refine carries_read.bind fun input ↦ carries_get.bind fun state ↦ ?_
  have hstop : (move.input input).entry.pos (id state).lastStop =
      move.pos (input.entry.pos state.lastStop) := pos_fileEntry _ _
  rw [hstop]
  exact carries_node _

theorem carries_nodeOf (token : Token) :
    move.Carries move.info (Parser.nodeOf token) (Parser.nodeOf token) := by
  unfold Parser.nodeOf
  refine carries_read.bind fun input ↦ ?_
  have hpos (offset : Nat) : (move.input input).entry.pos offset =
      move.pos (input.entry.pos offset) := pos_fileEntry _ _
  dsimp only
  rw [hpos, hpos]
  exact carries_node _

theorem carries_identOf (token : Token) :
    move.Carries move.ident (Parser.identOf token) (Parser.identOf token) := by
  unfold Parser.identOf
  exact (carries_nodeOf token).bind fun info ↦ Carries.pure rfl

theorem carries_ident : move.Carries move.ident Parser.ident Parser.ident :=
  (carries_expectAs _ _).bind fun token ↦ carries_identOf token

theorem carries_literalOf (token : Token) (kind : LiteralKind) :
    move.Carries move.literal (Parser.literalOf token kind) (Parser.literalOf token kind) := by
  unfold Parser.literalOf
  exact (carries_nodeOf token).bind fun info ↦ Carries.pure rfl

theorem carries_docBefore (offset : Nat) :
    move.Carries id (Parser.docBefore offset) (Parser.docBefore offset) := by
  unfold Parser.docBefore
  refine carries_read.bind fun input ↦ ?_
  have hchars : (move.input input).chars = input.chars := rfl
  have hcomments : (move.input input).comments = input.comments := rfl
  rw [hchars, hcomments]
  cases Parser.leadingComments input.chars offset [] input.comments.reverse with
  | nil => exact Carries.pure rfl
  | cons line lines => exact Carries.pure rfl

end Relocation

end PackageAtlas
