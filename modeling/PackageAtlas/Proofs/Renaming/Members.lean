import PackageAtlas.Proofs.Dedupe.Renaming
import PackageAtlas.Proofs.Renaming.Unnamed
import PackageAtlas.Proofs.Spans.Traversal

/-!
Names of members. Renaming keeps seven kinds of names, which is a matter of where an identifier
stands: the package clause and imports, declarations of methods, selected names, fields of structs
and methods of interfaces, and keys that name a field in a composite literal (`Node.standings`). All
other identifiers change as the table says, at once, and are counted (`SourceFile.rename_exact`).
-/

set_option autoImplicit false
set_option relaxedAutoImplicit false

namespace PackageAtlas

/-- How a node stands to renaming. A kept node is a name that does not change. A member keeps the
names that it declares, and a keyed element its key. -/
inductive Standing where
  | free
  | kept
  | member
  | keyed
deriving DecidableEq, Repr

namespace Node

/-! ### Where names stand -/

/-- An element of a composite literal, by whether keys are values there. -/
def elementStanding (values : Bool) : Expr → Standing
  | .keyValue _ (.ident _) _ => if values then .free else .keyed
  | _ => .free

/-- Nodes that stand alike. -/
def alike (standing : Standing) (nodes : List Node) : List (Standing × Node) :=
  nodes.map (standing, ·)

/-- The elements of a composite literal with their standings. -/
def elements (values : Bool) (list : List Expr) : List (Standing × Node) :=
  list.map fun element ↦ (elementStanding values element, ofExpr element)

/-- The direct children of an expression with their standings. -/
def exprStandings (standing : Standing) : Expr → List (Standing × Node)
  | .selector _ operand selected => [(.free, ofExpr operand), (.kept, ident selected)]
  | .composite _ type list => (.free, ofExpr type) :: elements (Renames.keysAreValues type) list
  | .keyValue _ key value =>
    [(if standing = .keyed then .kept else .free, ofExpr key), (.free, ofExpr value)]
  | .structType _ members | .interfaceType _ members => alike .member (members.map field)
  | other => alike .free (exprChildren other)

/-- The direct children of a node with their standings. -/
def standings (standing : Standing) : Node → List (Standing × Node)
  | file n => (.kept, ident n.packageName) :: alike .free (n.decls.map ofDecl)
  | funcDecl n =>
    alike .free (n.receiver.toList.map field) ++
      [(if n.receiver.isSome then .kept else .free, ident n.name), (.free, funcType n.type)] ++
      alike .free (n.body.toList.map block)
  | importSpec n => alike .kept (n.name.toList.map ident) ++ [(.free, expr (.literal n.path))]
  | field n =>
    alike (if standing = .member then .kept else .free) (n.names.map ident) ++
      [(.free, ofExpr n.type)]
  | expr e => exprStandings standing e
  | other => alike .free other.children

theorem map_snd_alike (standing : Standing) (nodes : List Node) :
    (alike standing nodes).map (·.2) = nodes := by
  simp [alike, Function.comp_def]

theorem map_snd_exprStandings (standing : Standing) (e : Expr) :
    (exprStandings standing e).map (·.2) = exprChildren e := by
  cases e with
  | composite => simp [exprStandings, elements, exprChildren, Function.comp_def]
  | selector | keyValue => rfl
  | _ => exact map_snd_alike _ _

theorem map_snd_standings (standing : Standing) (node : Node) :
    (node.standings standing).map (·.2) = node.children := by
  cases node with
  | expr e => exact map_snd_exprStandings standing e
  | file | funcDecl | importSpec | field =>
    simp [standings, children, map_snd_alike]
  | _ => exact map_snd_alike _ _

theorem mem_children_of_mem_standings {standing : Standing} {node : Node}
    {entry : Standing × Node} (h : entry ∈ node.standings standing) : entry.2 ∈ node.children :=
  map_snd_standings standing node ▸ List.mem_map_of_mem h

/-- The identifiers of a tree in the order of the nodes, with their standings. -/
def names (standing : Standing) (node : Node) : List (Standing × Ident) :=
  node.ident?.toList.map (standing, ·) ++
    (node.standings standing).attach.flatMap fun ⟨entry, _⟩ ↦ names entry.1 entry.2
termination_by sizeOf node
decreasing_by exact sizeOf_lt_of_mem_children (mem_children_of_mem_standings (by assumption))

/-- The identifiers of some trees with their standings. -/
def namesAll (entries : List (Standing × Node)) : List (Standing × Ident) :=
  entries.flatMap fun entry ↦ entry.2.names entry.1

theorem names_eq (standing : Standing) (node : Node) :
    node.names standing =
      node.ident?.toList.map (standing, ·) ++ namesAll (node.standings standing) := by
  rw [names, namesAll, List.flatMap_def, List.flatMap_def]
  refine congrArg (_ ++ List.flatten ·) ?_
  exact List.attach_map_val (f := fun entry : Standing × Node ↦ entry.2.names entry.1)

theorem namesAll_append (entries rest : List (Standing × Node)) :
    namesAll (entries ++ rest) = namesAll entries ++ namesAll rest := List.flatMap_append

theorem namesAll_singleton (standing : Standing) (node : Node) :
    namesAll [(standing, node)] = node.names standing := List.flatMap_singleton _ _

theorem names_ident (standing : Standing) (name : Ident) :
    (ident name).names standing = [(standing, name)] := by
  rw [names_eq]
  rfl

theorem names_of_not_ident {node : Node} (h : node.ident? = none) (standing : Standing) :
    node.names standing = namesAll (node.standings standing) := by
  rw [names_eq, h]
  rfl

/-- No identifier is left out, and they stand in the order in which a traversal meets them. -/
theorem map_snd_names (standing : Standing) (node : Node) :
    (node.names standing).map (·.2) = node.nodes.filterMap ident? := by
  induction node using treeInduction generalizing standing with
  | step node ih =>
    rw [names_eq, nodes_eq, List.map_append, List.filterMap_cons, List.filterMap_flatMap,
      ← map_snd_standings standing node, List.flatMap_map, namesAll, List.map_flatMap]
    have hchildren : ((node.standings standing).flatMap fun entry ↦
        (entry.2.names entry.1).map (·.2)) =
        (node.standings standing).flatMap fun entry ↦ entry.2.nodes.filterMap ident? := by
      rw [List.flatMap_def, List.flatMap_def]
      refine congrArg List.flatten (List.map_congr_left fun entry hentry ↦ ?_)
      exact ih entry.2 (mem_children_of_mem_standings hentry) entry.1
    rw [hchildren]
    cases node.ident? <;> rfl

end Node

namespace Renames

open Node (namesAll alike elementStanding elements ofExpr ofStmt ofSpec ofDecl)

/-! ### Names that change -/

/-- Whether an identifier changes where it stands. -/
def changes (renames : Renames) (entry : Standing × Ident) : Bool :=
  entry.1 ≠ .kept && (renames.lookup entry.2.name).isSome

/-- What an identifier becomes where it stands. -/
def under (renames : Renames) (entry : Standing × Ident) : Ident :=
  if renames.changes entry then { entry.2 with name := renames.apply entry.2.name } else entry.2

/-- Trees that others become, with the count of changed names before and after. -/
structure Turns (renames : Renames) (entries : List (Standing × Node)) (count : Nat)
    (others : List (Standing × Node)) (count' : Nat) : Prop where
  names_eq : namesAll others = (namesAll entries).map fun entry ↦ (entry.1, renames.under entry)
  count_eq : count' = count + (namesAll entries).countP renames.changes

variable (renames : Renames)

namespace Turns

variable {renames} {entries rest others rest' : List (Standing × Node)} {count middle count' : Nat}
  {node other : Node} {standing : Standing} {nodes nodes' after after' : List Node}

protected theorem nil : Turns renames [] count [] count := ⟨rfl, rfl⟩

theorem append (h : Turns renames entries count others middle)
    (hrest : Turns renames rest middle rest' count') :
    Turns renames (entries ++ rest) count (others ++ rest') count' where
  names_eq := by
    rw [Node.namesAll_append, Node.namesAll_append, List.map_append, h.names_eq, hrest.names_eq]
  count_eq := by
    rw [Node.namesAll_append, List.countP_append, hrest.count_eq, h.count_eq, Nat.add_assoc]

theorem cons {entry entry' : Standing × Node} (h : Turns renames [entry] count [entry'] middle)
    (hrest : Turns renames rest middle rest' count') :
    Turns renames (entry :: rest) count (entry' :: rest') count' := h.append hrest

theorem append_alike (h : Turns renames (alike standing nodes) count (alike standing nodes') middle)
    (hafter : Turns renames (alike standing after) middle (alike standing after') count') :
    Turns renames (alike standing (nodes ++ after)) count (alike standing (nodes' ++ after'))
      count' := by
  unfold alike at *
  rw [List.map_append, List.map_append]
  exact h.append hafter

/-- A kept name. -/
theorem kept (renames : Renames) (name : Ident) (count : Nat) :
    Turns renames [(.kept, .ident name)] count [(.kept, .ident name)] count where
  names_eq := by
    rw [Node.namesAll_singleton, Node.names_ident]
    rfl
  count_eq := by
    rw [Node.namesAll_singleton, Node.names_ident]
    rfl

theorem kept_names (renames : Renames) (list : List Ident) (count : Nat) :
    Turns renames (alike .kept (list.map .ident)) count (alike .kept (list.map .ident)) count := by
  induction list with
  | nil => exact .nil
  | cons name rest ih => exact (kept renames name count).cons ih

/-- A node turns into another one when the nodes below it do. -/
theorem gather (hnode : node.ident? = none) (hother : other.ident? = none) {standing' : Standing}
    (h : Turns renames (node.standings standing) count (other.standings standing') count') :
    Turns renames [(standing, node)] count [(standing', other)] count' where
  names_eq := by
    rw [Node.namesAll_singleton, Node.namesAll_singleton, Node.names_of_not_ident hnode,
      Node.names_of_not_ident hother]
    exact h.names_eq
  count_eq := by
    rw [Node.namesAll_singleton, Node.names_of_not_ident hnode]
    exact h.count_eq

theorem literal (renames : Renames) (l : Literal) (count : Nat) :
    Turns renames [(.free, .expr (.literal l))] count [(.free, .expr (.literal l))] count :=
  .gather rfl rfl .nil

/-- What a step makes of the members of a list, one after the other. -/
theorem mapM {α β : Type} {step : α → StateM Nat β} {make : α → Node} {remake : β → Node}
    (h : ∀ a count, Turns renames [(.free, make a)] count [(.free, remake (step a count).1)]
      (step a count).2) (list : List α) (count : Nat) :
    Turns renames (alike .free (list.map make)) count
      (alike .free ((list.mapM step count).1.map remake)) (list.mapM step count).2 := by
  induction list generalizing count with
  | nil => exact .nil
  | cons a rest ih =>
    rw [List.mapM_cons]
    exact (h a count).cons (ih (step a count).2)

end Turns

theorem turns_onIdent (name : Ident) (count : Nat) :
    Turns renames [(.free, .ident name)] count [(.free, .ident (renames.onIdent name count).1)]
      (renames.onIdent name count).2 := by
  constructor
  · rw [Node.namesAll_singleton, Node.namesAll_singleton, Node.names_ident, Node.names_ident]
    unfold onIdent under changes apply
    cases h : renames.lookup name.name <;> simp [h] <;> rfl
  · rw [Node.namesAll_singleton, Node.names_ident]
    unfold onIdent changes
    cases h : renames.lookup name.name <;> simp [h] <;> rfl

theorem turns_onIdents (list : List Ident) (count : Nat) :
    Turns renames (alike .free (list.map .ident)) count
      (alike .free ((renames.onIdents list count).1.map .ident)) (renames.onIdents list count).2 :=
  .mapM (turns_onIdent renames) list count

/-! ### Composite literals -/

theorem keysAreValues_onExpr (type : Expr) (count : Nat) :
    keysAreValues (onExpr renames type count).1 = keysAreValues type := by
  cases type <;> rfl

theorem elementStanding_onExpr (values : Bool) {element : Expr}
    (h : ∀ info key value, element ≠ .keyValue info (.ident key) value) (count : Nat) :
    elementStanding values element = .free ∧
      elementStanding values (onExpr renames element count).1 = .free := by
  cases element with
  | keyValue info key value =>
    cases key with
    | ident key => exact absurd rfl (h info key value)
    | _ => exact ⟨rfl, rfl⟩
  | _ => exact ⟨rfl, rfl⟩

/-- Elements of a composite literal, when what stands in them turns. -/
theorem turns_onElements_cons {values : Bool} {element : Expr} {rest : List Expr}
    (helement : ∀ count, Turns renames [(.free, ofExpr element)] count
      [(.free, ofExpr (onExpr renames element count).1)] (onExpr renames element count).2)
    (hvalue : ∀ {info key value}, element = .keyValue info key value → ∀ count,
      Turns renames [(.free, ofExpr value)] count [(.free, ofExpr (onExpr renames value count).1)]
        (onExpr renames value count).2)
    (hrest : ∀ count, Turns renames (elements values rest) count
      (elements values (onElements renames values rest count).1)
      (onElements renames values rest count).2) (count : Nat) :
    Turns renames (elements values (element :: rest)) count
      (elements values (onElements renames values (element :: rest) count).1)
      (onElements renames values (element :: rest) count).2 := by
  by_cases h : ∀ info key value, element ≠ .keyValue info (.ident key) value
  · obtain ⟨hfree, hfree'⟩ := elementStanding_onExpr renames values h count
    rw [onElements]
    · refine .cons ?_ (hrest (onExpr renames element count).2)
      change Turns renames [(elementStanding values element, _)] _ [(elementStanding values _, _)] _
      rw [hfree, hfree']
      exact helement count
    · exact h
  · push Not at h
    obtain ⟨info, key, value, rfl⟩ := h
    cases values with
    | true =>
      exact .cons (.gather rfl rfl (.cons (turns_onIdent renames key count) (hvalue rfl _)))
        (hrest _)
    | false =>
      exact .cons (.gather rfl rfl (.cons (.kept renames key count) (hvalue rfl _))) (hrest _)

theorem turns_composite {info : NodeInfo} {type : Expr} {list : List Expr}
    (htype : ∀ count, Turns renames [(.free, ofExpr type)] count
      [(.free, ofExpr (onExpr renames type count).1)] (onExpr renames type count).2)
    (hlist : ∀ count, Turns renames (elements (keysAreValues type) list) count
      (elements (keysAreValues type) (onElements renames (keysAreValues type) list count).1)
      (onElements renames (keysAreValues type) list count).2) (count : Nat) :
    Turns renames [(.free, ofExpr (.composite info type list))] count
      [(.free, ofExpr (onExpr renames (.composite info type list) count).1)]
      (onExpr renames (.composite info type list) count).2 := by
  refine .gather rfl rfl (.cons (htype count) ?_)
  rw [keysAreValues_onExpr]
  exact hlist _

mutual

theorem turns_onExpr : (e : Expr) → (count : Nat) →
    Turns renames [(.free, ofExpr e)] count [(.free, ofExpr (onExpr renames e count).1)]
      (onExpr renames e count).2
  | .ident name, count => turns_onIdent renames name count
  | .literal l, count => .literal renames l count
  | .selector _ operand selected, count =>
    .gather rfl rfl (.cons (turns_onExpr operand count) (.kept renames selected _))
  | .call _ callee args, count =>
    .gather rfl rfl (.cons (turns_onExpr callee count) (turns_onExprs args _))
  | .star _ operand, count | .unary _ _ operand, count | .paren _ operand, count =>
    .gather rfl rfl (turns_onExpr operand count)
  | .binary _ _ left right, count | .index _ left right, count | .mapType _ left right, count
  | .keyValue _ left right, count =>
    .gather rfl rfl (.cons (turns_onExpr left count) (turns_onExpr right _))
  | .typeAssert _ operand type, count =>
    .gather rfl rfl (.cons (turns_onExpr operand count) (turns_onExpr? type _))
  | .composite _ type list, count =>
    turns_composite renames (turns_onExpr type) (turns_onElements _ list) count
  | .funcLit _ type body, count =>
    .gather rfl rfl (.cons (turns_onFuncType type count) (turns_onBlock body _))
  | .arrayType _ length element, count =>
    .gather rfl rfl (.append_alike (turns_onExpr? length count) (turns_onExpr element _))
  | .structType _ members, count | .interfaceType _ members, count =>
    .gather rfl rfl (turns_onMembers members count)
  | .funcType type, count => turns_onFuncType type count

theorem turns_onExpr? : (e : Option Expr) → (count : Nat) →
    Turns renames (alike .free (e.toList.map ofExpr)) count
      (alike .free ((onExpr? renames e count).1.toList.map ofExpr)) (onExpr? renames e count).2
  | none, _ => .nil
  | some e, count => turns_onExpr e count

theorem turns_onExprs : (list : List Expr) → (count : Nat) →
    Turns renames (alike .free (list.map ofExpr)) count
      (alike .free ((onExprs renames list count).1.map ofExpr)) (onExprs renames list count).2
  | [], _ => .nil
  | e :: rest, count => .cons (turns_onExpr e count) (turns_onExprs rest _)

theorem turns_onElements (values : Bool) : (list : List Expr) → (count : Nat) →
    Turns renames (elements values list) count
      (elements values (onElements renames values list count).1)
      (onElements renames values list count).2
  | [], _ => .nil
  | e :: rest, count => turns_onElements_cons renames (turns_onExpr e) (turns_onValue e)
      (turns_onElements values rest) count

/-- The value of an element with a key, which is renamed on its own when the key is a name. -/
theorem turns_onValue : (e : Expr) → ∀ {info key value}, e = .keyValue info key value → ∀ count,
    Turns renames [(.free, ofExpr value)] count [(.free, ofExpr (onExpr renames value count).1)]
      (onExpr renames value count).2
  | .keyValue _ _ value => fun h count ↦ (Expr.keyValue.inj h).2.2 ▸ turns_onExpr value count
  | .ident _ | .literal _ | .selector .. | .call .. | .star .. | .unary .. | .binary .. => nofun
  | .paren .. | .typeAssert .. | .index .. | .composite .. | .funcLit .. | .arrayType .. => nofun
  | .mapType .. | .structType .. | .interfaceType .. | .funcType _ => nofun

theorem turns_onField : (f : Field) → (count : Nat) →
    Turns renames [(.free, .field f)] count [(.free, .field (onField renames f count).1)]
      (onField renames f count).2
  | ⟨_, list, type⟩, count =>
    .gather rfl rfl (.append (turns_onIdents renames list count) (turns_onExpr type _))

theorem turns_onFields : (list : List Field) → (count : Nat) →
    Turns renames (alike .free (list.map .field)) count
      (alike .free ((onFields renames list count).1.map .field)) (onFields renames list count).2
  | [], _ => .nil
  | f :: rest, count => .cons (turns_onField f count) (turns_onFields rest _)

theorem turns_onMember : (f : Field) → (count : Nat) →
    Turns renames [(.member, .field f)] count [(.member, .field (onMember renames f count).1)]
      (onMember renames f count).2
  | ⟨_, list, type⟩, count =>
    .gather rfl rfl (.append (.kept_names renames list count) (turns_onExpr type count))

theorem turns_onMembers : (list : List Field) → (count : Nat) →
    Turns renames (alike .member (list.map .field)) count
      (alike .member ((onMembers renames list count).1.map .field))
      (onMembers renames list count).2
  | [], _ => .nil
  | f :: rest, count => .cons (turns_onMember f count) (turns_onMembers rest _)

theorem turns_onFuncType : (type : FuncType) → (count : Nat) →
    Turns renames [(.free, .funcType type)] count
      [(.free, .funcType (onFuncType renames type count).1)] (onFuncType renames type count).2
  | ⟨_, params, results⟩, count =>
    .gather rfl rfl (.append_alike (turns_onFields params count) (turns_onFields results _))

theorem turns_onBlock : (b : Block) → (count : Nat) →
    Turns renames [(.free, .block b)] count [(.free, .block (onBlock renames b count).1)]
      (onBlock renames b count).2
  | ⟨_, list⟩, count => .gather rfl rfl (turns_onStmts list count)

theorem turns_onStmts : (list : List Stmt) → (count : Nat) →
    Turns renames (alike .free (list.map ofStmt)) count
      (alike .free ((onStmts renames list count).1.map ofStmt)) (onStmts renames list count).2
  | [], _ => .nil
  | s :: rest, count => .cons (turns_onStmt s count) (turns_onStmts rest _)

theorem turns_onStmt? : (s : Option Stmt) → (count : Nat) →
    Turns renames (alike .free (s.toList.map ofStmt)) count
      (alike .free ((onStmt? renames s count).1.toList.map ofStmt)) (onStmt? renames s count).2
  | none, _ => .nil
  | some s, count => turns_onStmt s count

theorem turns_onStmt : (s : Stmt) → (count : Nat) →
    Turns renames [(.free, ofStmt s)] count [(.free, ofStmt (onStmt renames s count).1)]
      (onStmt renames s count).2
  | .decl _ decl, count => .gather rfl rfl (turns_onGenDecl decl count)
  | .assign _ lhs _ rhs, count =>
    .gather rfl rfl (.append_alike (turns_onExprs lhs count) (turns_onExprs rhs _))
  | .expr _ operand, count | .incDec _ operand _, count | .deferred _ _ operand, count =>
    .gather rfl rfl (turns_onExpr operand count)
  | .ret _ results, count => .gather rfl rfl (turns_onExprs results count)
  | .block b, count => turns_onBlock b count
  | .cond _ init test body otherwise, count =>
    .gather rfl rfl (.append_alike (.append_alike (turns_onStmt? init count)
      (.cons (turns_onExpr test _) (turns_onBlock body _))) (turns_onStmt? otherwise _))
  | .loop _ init test post body, count =>
    .gather rfl rfl (.append_alike (.append_alike (.append_alike (turns_onStmt? init count)
      (turns_onExpr? test _)) (turns_onStmt? post _)) (turns_onBlock body _))
  | .switch _ init tag arms, count =>
    .gather rfl rfl (.append_alike (.append_alike (turns_onStmt? init count) (turns_onExpr? tag _))
      (turns_onClauses arms _))
  | .typeSwitch _ init none guard arms, count =>
    .gather rfl rfl (.append_alike (.append_alike (.append_alike (turns_onStmt? init count) .nil)
      (turns_onExpr guard _)) (turns_onClauses arms _))
  | .typeSwitch _ init (some binding) guard arms, count =>
    .gather rfl rfl (.append_alike (.append_alike (.append_alike (turns_onStmt? init count)
      (turns_onIdent renames binding _)) (turns_onExpr guard _)) (turns_onClauses arms _))
  | .branch _ _, _ => .gather rfl rfl .nil

theorem turns_onClause : (c : CaseClause) → (count : Nat) →
    Turns renames [(.free, .clause c)] count [(.free, .clause (onClause renames c count).1)]
      (onClause renames c count).2
  | ⟨_, list, body⟩, count =>
    .gather rfl rfl (.append_alike (turns_onExprs list count) (turns_onStmts body _))

theorem turns_onClauses : (list : List CaseClause) → (count : Nat) →
    Turns renames (alike .free (list.map .clause)) count
      (alike .free ((onClauses renames list count).1.map .clause)) (onClauses renames list count).2
  | [], _ => .nil
  | c :: rest, count => .cons (turns_onClause c count) (turns_onClauses rest _)

theorem turns_onSpec : (s : Spec) → (count : Nat) →
    Turns renames [(.free, ofSpec s)] count [(.free, ofSpec (onSpec renames s count).1)]
      (onSpec renames s count).2
  | .imports spec, count =>
    .gather rfl rfl (.append (.kept_names renames spec.name.toList count)
      (.literal renames spec.path count))
  | .value ⟨_, list, type, values⟩, count =>
    .gather rfl rfl (.append_alike (.append_alike (turns_onIdents renames list count)
      (turns_onExpr? type _)) (turns_onExprs values _))
  | .type ⟨_, name, _, type⟩, count =>
    .gather rfl rfl (.cons (turns_onIdent renames name count) (turns_onExpr type _))

theorem turns_onSpecs : (list : List Spec) → (count : Nat) →
    Turns renames (alike .free (list.map ofSpec)) count
      (alike .free ((onSpecs renames list count).1.map ofSpec)) (onSpecs renames list count).2
  | [], _ => .nil
  | s :: rest, count => .cons (turns_onSpec s count) (turns_onSpecs rest _)

theorem turns_onGenDecl : (d : GenDecl) → (count : Nat) →
    Turns renames [(.free, .genDecl d)] count [(.free, .genDecl (onGenDecl renames d count).1)]
      (onGenDecl renames d count).2
  | ⟨_, _, list⟩, count => .gather rfl rfl (turns_onSpecs list count)

end

theorem turns_body (body : Option Block) (count : Nat) :
    Turns renames (alike .free (body.toList.map .block)) count
      (alike .free ((body.mapM renames.onBlock count).1.toList.map .block))
      (body.mapM renames.onBlock count).2 := by
  cases body with
  | none => exact .nil
  | some body => exact turns_onBlock renames body count

/-- A function changes its name, a method keeps it. -/
theorem turns_onFuncDecl (d : FuncDecl) (count : Nat) :
    Turns renames [(.free, .funcDecl d)] count [(.free, .funcDecl (onFuncDecl renames d count).1)]
      (onFuncDecl renames d count).2 := by
  obtain ⟨info, receiver, name, type, body⟩ := d
  cases receiver with
  | none =>
    exact .gather rfl rfl (.append (.cons (turns_onIdent renames name count)
      (turns_onFuncType renames type _)) (turns_body renames body _))
  | some receiver =>
    exact .gather rfl rfl (.append (.cons (turns_onField renames receiver count)
      (.cons (.kept renames name _) (turns_onFuncType renames type _))) (turns_body renames body _))

theorem turns_onDecl (d : Decl) (count : Nat) :
    Turns renames [(.free, ofDecl d)] count [(.free, ofDecl (onDecl renames d count).1)]
      (onDecl renames d count).2 := by
  cases d with
  | gen d => exact turns_onGenDecl renames d count
  | func d => exact turns_onFuncDecl renames d count

theorem turns_rename (file : SourceFile) :
    Turns renames [(.free, .file file)] 0 [(.free, .file (file.rename renames).1)]
      (file.rename renames).2 :=
  .gather rfl rfl (.cons (.kept renames file.packageName 0)
    (.mapM (turns_onDecl renames) file.decls 0))

end Renames

/-- Renaming changes nothing but names. Of the identifiers, in the order in which a traversal meets
them, those change that the table has and that are not kept where they stand, each to what the table
has for its own name, and they are counted. -/
theorem SourceFile.rename_exact (file : SourceFile) (renames : Renames) :
    let before := (Node.file file).names .free
    Unnamed.file (file.rename renames).1 = Unnamed.file file ∧
    before.map (·.2) = (Node.file file).nodes.filterMap Node.ident? ∧
    (Node.file (file.rename renames).1).nodes.filterMap Node.ident? = before.map renames.under ∧
    (file.rename renames).2 = before.countP renames.changes := by
  intro before
  obtain ⟨hnames, hcount⟩ := Renames.turns_rename renames file
  rw [Node.namesAll_singleton] at hnames hcount
  rw [Node.namesAll_singleton] at hnames
  refine ⟨Unnamed.file_rename renames file, Node.map_snd_names _ _, ?_, ?_⟩
  · rw [← Node.map_snd_names .free, hnames, List.map_map]
    rfl
  · rw [hcount, Nat.zero_add]

end PackageAtlas
