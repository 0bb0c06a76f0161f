import Likeness.Proofs.Syntax.Plain
import Likeness.Syntax.Grammar.Program

namespace Likeness.Syntax.Grammar

open Reading

variable {chars : Array Char}

section Literals

instance keeps_stringPart (quote : Char) : Keeps chars (stringPart quote) := by
  unfold stringPart
  refine .bind inferInstance fun c => .bind inferInstance fun s => ?_
  dsimp only
  split
  · infer_instance
  · split
    · split <;> infer_instance
    · infer_instance

instance keeps_quoted (quote : String) (part : Reading Unit) [Keeps chars part] :
    Keeps chars (quoted quote part) := by
  unfold quoted
  infer_instance

instance keeps_string (role : Option Role) : Keeps chars (string role) := by
  unfold string
  infer_instance

instance keeps_number (role : Option Role) : Keeps chars (number role) := by
  unfold number
  refine .bind inferInstance fun c => .bind inferInstance fun s => ?_
  split <;> infer_instance

instance keeps_regex : Keeps chars regex := by
  unfold regex
  refine .bind ?_ fun _ => inferInstance
  refine @keeps_node _ _ _ _ _ ?_
  refine .bind inferInstance fun _ => .bind inferInstance fun c => .bind inferInstance fun s => ?_
  split <;> infer_instance

instance keeps_templatePart (substitution : Kind) [Fails substitution.bearsName]
    (inner : Reading Unit) [Keeps chars inner] : Keeps chars (templatePart substitution inner) := by
  unfold templatePart
  refine .bind inferInstance fun c => .bind inferInstance fun s => ?_
  dsimp only
  split
  · infer_instance
  · split
    · split <;> infer_instance
    · infer_instance

-- A name with hyphens in it is plain as well.
instance keeps_hyphenName (kind : Kind) (role : Option Role) :
    Keeps chars (hyphenName kind role) where
  plain c s a s' hc hs h := by
    unfold hyphenName at h
    obtain ⟨_, _, hcontext, hrest⟩ := bind_eq_done.mp h
    cases hcontext
    obtain ⟨_, _, hstate, hrest⟩ := bind_eq_done.mp hrest
    cases hstate
    cases hword : wordAt? c.chars s.pos with
    | none =>
      rw [hword] at hrest
      cases hrest
    | some stop =>
      rw [hword] at hrest
      obtain ⟨_, _, htake, hsettle⟩ := bind_eq_done.mp hrest
      cases htake
      subst hc
      have hname : PlainSpan c.chars ⟨s.pos, hyphenEnd c.chars s.pos⟩ := plainFrom_hyphenEnd _ _
      exact keeps_settle.plain c _ a s' rfl (hs.push (plain_of_word hname) _ _) hsettle

end Literals

-- Each rule makes plain trees if the rules that it refers to do.
variable {g : Rules} [∀ rule, Keeps chars (g rule)]

instance keeps_templateString : Keeps chars (templateString g) := by
  unfold templateString
  infer_instance

section Types

instance keeps_identifier (role : Option Role) : Keeps chars (identifier role) := by
  unfold identifier
  infer_instance

instance keeps_typeName (role : Option Role) : Keeps chars (typeName role) := by
  unfold typeName
  infer_instance

instance keeps_privateName : Keeps chars propertyName.privateName := by
  unfold propertyName.privateName
  refine .bind inferInstance fun c => .bind inferInstance fun s => ?_
  split
  · split <;> infer_instance
  · infer_instance

instance keeps_propertyName (role : Option Role) [Fails (isOperatorRole role)] :
    Keeps chars (propertyName g role) := by
  unfold propertyName
  infer_instance

instance keeps_typeClause (role : Option Role) : Keeps chars (typeClause g role) := by
  unfold typeClause
  infer_instance

instance keeps_typePredicate : Keeps chars (typePredicate g) := by
  unfold typePredicate
  infer_instance

instance keeps_asserts : Keeps chars (asserts g) := by
  unfold asserts
  infer_instance

instance keeps_resultType : Keeps chars (resultType g) := by
  unfold resultType
  infer_instance

instance keeps_callSignature : Keeps chars (callSignature g) := by
  unfold callSignature
  infer_instance

instance keeps_typeParameter : Keeps chars (typeParameter g) := by
  unfold typeParameter
  infer_instance

instance keeps_typeParameters : Keeps chars (typeParameters g) := by
  unfold typeParameters
  infer_instance

instance keeps_typeArguments : Keeps chars (typeArguments g) := by
  unfold typeArguments
  infer_instance

instance keeps_functionType : Keeps chars (functionType g) := by
  unfold functionType
  infer_instance

instance keeps_mappedSign : Keeps chars mappedSign := by
  unfold mappedSign
  infer_instance

instance keeps_mappedClause : Keeps chars (mappedClause g) := by
  unfold mappedClause
  infer_instance

instance keeps_indexSignature_marked (before : String) : Keeps chars (indexSignature.marked g before) := by
  unfold indexSignature.marked
  infer_instance

instance keeps_indexSignature : Keeps chars (indexSignature g) := by
  unfold indexSignature
  infer_instance

instance keeps_memberWord (text : String) : Keeps chars (memberWord text) := by
  unfold memberWord
  refine .bind inferInstance fun _ => .bind inferInstance fun next => ?_
  split <;> infer_instance

instance keeps_accessibility : Keeps chars accessibility := by
  unfold accessibility
  infer_instance

instance keeps_overriding : Keeps chars overriding := by
  unfold overriding
  infer_instance

instance keeps_methodWords : Keeps chars methodWords := by
  unfold methodWords
  infer_instance

instance keeps_methodSignature : Keeps chars (methodSignature g) := by
  unfold methodSignature
  infer_instance

instance keeps_propertySignature : Keeps chars (propertySignature g) := by
  unfold propertySignature
  infer_instance

instance keeps_objectTypeMember : Keeps chars (objectTypeMember g) := by
  unfold objectTypeMember
  infer_instance

instance keeps_objectTypeAs (kind : Kind) [Fails kind.bearsName] (role : Option Role) :
    Keeps chars (objectTypeAs kind role g) := by
  unfold objectTypeAs
  infer_instance

instance keeps_objectType : Keeps chars (objectType g) := by
  unfold objectType
  infer_instance

instance keeps_tupleMember : Keeps chars (tupleMember g) := by
  unfold tupleMember
  infer_instance

instance keeps_typeQuery_importType : Keeps chars typeQuery.importType := by
  unfold typeQuery.importType
  infer_instance

instance keeps_typeQuery : Keeps chars (typeQuery g) := by
  unfold typeQuery
  infer_instance

instance keeps_namedType : Keeps chars (namedType g) := by
  unfold namedType
  infer_instance

instance keeps_importedType : Keeps chars (importedType g) := by
  unfold importedType
  infer_instance

instance keeps_literalType : Keeps chars literalType := by
  have hminus : Spelled "-" (some .operator) := .of_oneLine (by decide) _
  have hplus : Spelled "+" (some .operator) := .of_oneLine (by decide) _
  unfold literalType
  infer_instance

instance keeps_predefinedType (words : List String) : Keeps chars (predefinedType words) := by
  induction words with
  | nil => exact keeps_refuse
  | cons w rest ih =>
    unfold predefinedType
    infer_instance

instance keeps_templateType : Keeps chars (templateType g) := by
  unfold templateType
  infer_instance

instance keeps_simpleType : Keeps chars (simpleType g) := by
  have hinferred : Keeps chars (node .inferType none do
      word "infer" none
      typeName none
      Reading.optional do
        word "extends" none
        g .primaryType
        never (sign "?" none)) := inferInstance
  have htuple : Keeps chars (node .tupleType none do
      mark "[" none
      bracketed (commaSep (tupleMember g))
      Reading.optional (sign "," none)
      mark "]" none) := inferInstance
  unfold simpleType
  infer_instance

instance keeps_primaryType : Keeps chars (primaryType g) := by
  unfold primaryType
  infer_instance

instance keeps_joinedType (operator : String) (kind : Kind) [Fails kind.bearsName]
    (member : Reading Unit) [Keeps chars member] :
    Keeps chars (joinedType operator kind member) := by
  unfold joinedType
  infer_instance

instance keeps_unionType : Keeps chars (unionType g) := by
  unfold unionType
  infer_instance

instance keeps_typeExpression : Keeps chars (typeExpression g) := by
  unfold typeExpression
  infer_instance

end Types

section Patterns

instance keeps_placeExpression : Keeps chars (placeExpression g) := by
  unfold placeExpression
  refine .bind inferInstance fun _ => .bind inferInstance fun kind => ?_
  split <;> infer_instance

instance keeps_initializer (role : Option Role) [Fails (isOperatorRole role)] :
    Keeps chars (initializer g role) := by
  unfold initializer
  infer_instance

instance keeps_restPattern : Keeps chars (restPattern g) := by
  unfold restPattern
  infer_instance

instance keeps_element : Keeps chars (element g) := by
  unfold element
  infer_instance

instance keeps_arrayPattern : Keeps chars (arrayPattern g) := by
  unfold arrayPattern
  infer_instance

instance keeps_objectPatternEntry : Keeps chars (objectPatternEntry g) := by
  unfold objectPatternEntry
  infer_instance

instance keeps_objectPattern : Keeps chars (objectPattern g) := by
  unfold objectPattern
  infer_instance

instance keeps_destructuring : Keeps chars (destructuring g) := by
  unfold destructuring
  infer_instance

instance keeps_pattern : Keeps chars (pattern g) := by
  unfold pattern
  infer_instance

instance keeps_binding : Keeps chars (binding g) := by
  unfold binding
  infer_instance

instance keeps_decorator : Keeps chars (decorator g) := by
  unfold decorator
  infer_instance

instance keeps_parameterWord (p : Reading Unit) [Keeps chars p] :
    Keeps chars (parameter.parameterWord p) := by
  unfold parameter.parameterWord
  infer_instance

instance keeps_parameter : Keeps chars (parameter g) := by
  unfold parameter
  infer_instance

instance keeps_formalParameters : Keeps chars (formalParameters g) := by
  unfold formalParameters
  infer_instance

end Patterns

section Markup

instance keeps_namespaceName (role : Option Role) : Keeps chars (namespaceName role) := by
  unfold namespaceName
  infer_instance

instance keeps_elementName (role : Option Role) [Fails (isOperatorRole role)] :
    Keeps chars (elementName role) := by
  unfold elementName
  infer_instance

instance keeps_characterReference : Keeps chars characterReference := by
  unfold characterReference
  refine .bind inferInstance fun c => .bind inferInstance fun s => ?_
  split <;> infer_instance

instance keeps_attributePart (quote : Char) : Keeps chars (attributePart quote) := by
  unfold attributePart
  infer_instance

instance keeps_attributeString : Keeps chars attributeString := by
  unfold attributeString
  infer_instance

instance keeps_spreadElement : Keeps chars (spreadElement g) := by
  unfold spreadElement
  infer_instance

instance keeps_embedded : Keeps chars (embedded g) := by
  unfold embedded
  infer_instance

instance keeps_elementAttribute : Keeps chars (elementAttribute g) := by
  unfold elementAttribute
  infer_instance

instance keeps_startTag : Keeps chars (startTag g) := by
  unfold startTag
  infer_instance

instance keeps_markupText : Keeps chars markupText := by
  unfold markupText
  infer_instance

instance keeps_closingTag : Keeps chars closingTag := by
  unfold closingTag
  infer_instance

instance keeps_markup_child : Keeps chars (markup.child g) := by
  unfold markup.child
  infer_instance

theorem bearsName_startTag {c : Context} {s s' : State} {kind : Kind}
    (h : startTag g c s = .done kind s') : kind.bearsName = false := by
  unfold startTag at h
  obtain ⟨_, _, -, h⟩ := bind_eq_done.mp h
  obtain ⟨_, _, -, h⟩ := bind_eq_done.mp h
  obtain ⟨_, _, -, h⟩ := bind_eq_done.mp h
  split at h
  · cases h
    rfl
  · obtain ⟨_, _, -, h⟩ := bind_eq_done.mp h
    cases h
    rfl

instance keeps_nodeOf (start : Nat) : Keeps chars (markup.nodeOf start (startTag g)) where
  plain c s a s' hc hs h := by
    unfold markup.nodeOf at h
    split at h
    · cases h
    · next hinner =>
      cases h
      have : Fails a.bearsName := ⟨bearsName_startTag hinner⟩
      exact plain_made hc hs (by simp) hs.out hinner none _

instance keeps_markup : Keeps chars (markup g) := by
  unfold markup
  refine .bind inferInstance fun s => .bind ?_ fun kind => ?_
  · exact keeps_within (fun _ => false) (·.resultTypes) (markup.nodeOf s.pos (startTag g))
  · split
    · infer_instance
    · infer_instance

end Markup

section Expressions

instance keeps_argumentList : Keeps chars (argumentList g) := by
  unfold argumentList
  infer_instance

instance keeps_methodDefinition : Keeps chars (methodDefinition g) := by
  unfold methodDefinition
  infer_instance

instance keeps_objectEntry : Keeps chars (objectEntry g) := by
  unfold objectEntry
  infer_instance

instance keeps_objectLiteral : Keeps chars (objectLiteral g) := by
  unfold objectLiteral
  infer_instance

instance keeps_arrayLiteral : Keeps chars (arrayLiteral g) := by
  unfold arrayLiteral
  infer_instance

instance keeps_literalOrAssignment (literal target : Reading Unit) [Keeps chars literal]
    [Keeps chars target] : Keeps chars (literalOrAssignment g literal target) := by
  unfold literalOrAssignment
  infer_instance

instance keeps_parenthesized : Keeps chars (parenthesized g) := by
  unfold parenthesized
  infer_instance

instance keeps_arrowFunction : Keeps chars (arrowFunction g) := by
  unfold arrowFunction
  infer_instance

instance keeps_arrowOrParenthesized : Keeps chars (arrowOrParenthesized g) := by
  unfold arrowOrParenthesized
  infer_instance

instance keeps_functionHead : Keeps chars (functionHead g) := by
  unfold functionHead
  infer_instance

instance keeps_functionExpression : Keeps chars (functionExpression g) := by
  unfold functionExpression
  infer_instance

instance keeps_heritage : Keeps chars (heritage g) := by
  unfold heritage
  infer_instance

instance keeps_classTail : Keeps chars (classTail g) := by
  unfold classTail
  infer_instance

instance keeps_classExpression : Keeps chars (classExpression g) := by
  unfold classExpression
  infer_instance

instance keeps_newExpression : Keeps chars (newExpression g) := by
  unfold newExpression
  infer_instance

instance keeps_typeSuffix : Keeps chars (typeSuffix g) := by
  unfold typeSuffix
  infer_instance

instance keeps_awaitExpression : Keeps chars (awaitExpression g) := by
  unfold awaitExpression
  infer_instance

instance keeps_yieldExpression : Keeps chars (yieldExpression g) := by
  unfold yieldExpression
  infer_instance

instance keeps_internalModule_moduleTail : Keeps chars (internalModule.moduleTail g) := by
  unfold internalModule.moduleTail
  infer_instance

instance keeps_internalModule : Keeps chars (internalModule g) := by
  unfold internalModule
  infer_instance

instance keeps_importExpression : Keeps chars importExpression := by
  unfold importExpression
  infer_instance

instance keeps_arrowOr (p : Reading Unit) [Keeps chars p] :
    Keeps chars (wordExpression.arrowOr g p) := by
  unfold wordExpression.arrowOr
  infer_instance

instance keeps_wordExpression (w : String) : Keeps chars (wordExpression g w) := by
  unfold wordExpression
  by_cases hw : (w = "typeof" || w = "void" || w = "delete") = true
  · have hspelled : Spelled w (some .operator) := by
      refine .of_oneLine ?_ _
      simp only [Bool.or_eq_true, decide_eq_true_eq] at hw
      rcases hw with (rfl | rfl) | rfl <;> decide
    infer_instance
  · simp only [if_neg hw]
    infer_instance

instance keeps_unary (operator : String) [Spelled operator (some .operator)] :
    Keeps chars (unary g operator) := by
  unfold unary
  infer_instance

instance keeps_operand : Keeps chars (operand g) := by
  unfold operand
  refine .bind inferInstance fun c => .bind inferInstance fun s => ?_
  split
  · infer_instance
  · next first _ =>
    have hmarkup : Keeps chars (arrowFunction g <|> match c.dialect with
        | .tsx => do
          g .markup
          settle
        | .typeScript => node .typeAssertion none do
          g .typeArguments
          g (.expression operandLevel)) := by
      cases c.dialect <;> infer_instance
    have hnot : Spelled "!" (some .operator) := .of_oneLine (by decide) _
    have htilde : Spelled "~" (some .operator) := .of_oneLine (by decide) _
    by_cases hfirst : (first = '+' || first = '-') = true
    · have hspelled : Spelled first.toString (some .operator) ∧
          Spelled (String.ofList [first, first]) (some .operator) := by
        simp only [Bool.or_eq_true, decide_eq_true_eq] at hfirst
        rcases hfirst with rfl | rfl <;>
          exact ⟨.of_oneLine (by decide) _, .of_oneLine (by decide) _⟩
      have := hspelled.1
      have := hspelled.2
      infer_instance
    · simp only [if_neg hfirst]
      infer_instance

instance keeps_member_property : Keeps chars (member.property g) := by
  unfold member.property
  infer_instance

instance keeps_member : Keeps chars (member g) := by
  unfold member
  infer_instance

instance keeps_index : Keeps chars (index g) := by
  unfold index
  infer_instance

instance keeps_optionalChain : Keeps chars (optionalChain g) := by
  unfold optionalChain
  infer_instance

instance keeps_typeApplication : Keeps chars (typeApplication g) := by
  unfold typeApplication
  refine @keeps_otherwise _ _ _ _ inferInstance fun _ => @keeps_wrap _ _ _ _ _ _ ?_
  refine .bind inferInstance fun _ => .bind inferInstance fun next => ?_
  split <;> infer_instance

instance keeps_binary (operator : String) [Spelled operator (some .operator)] (level : Nat) :
    Keeps chars (binary g operator level) := by
  unfold binary
  infer_instance

instance keeps_conditional : Keeps chars (conditional g) := by
  unfold conditional
  refine @keeps_wrap _ _ _ _ _ _ (.bind inferInstance fun _ => keeps_state_bind fun s hs => ?_)
  have := keeps_change_to hs
  infer_instance

instance keeps_assignment (operator : String) [Spelled operator (some .operator)] :
    Keeps chars (assignment g operator) := by
  unfold assignment
  refine .bind inferInstance fun kind => ?_
  split <;> infer_instance

theorem oneLine_of_mem_operators : ∀ op ∈ ["++", "--", "=", "<", "in", "instanceof"] ++
    augmentedOperators ++ binaryOperators.map Prod.fst, Text.OneLine op := by
  decide

-- What stands between two operands, if it is an operator.
theorem keeps_joined (level : Nat) (op : String) :
    Keeps chars (match binaryOperators.find? (·.1 = op) with
      | some (_, tightness) => if level ≤ tightness then binary g op tightness else refuse
      | none => do
        let w ← peekWord
        if w = "as" || w = "satisfies" then if level = 0 then typeSuffix g else refuse
        else if w = "in" || w = "instanceof" then
          if level ≤ 8 then binary g w 8 else refuse
        else refuse) := by
  split
  · next tightness hfind =>
    have hop : op ∈ binaryOperators.map Prod.fst :=
      List.mem_map.mpr ⟨_, List.mem_of_find?_eq_some hfind, by simpa using List.find?_some hfind⟩
    have hspelled : Spelled op (some .operator) :=
      .of_oneLine (oneLine_of_mem_operators op (by simp [hop])) _
    infer_instance
  · refine .bind inferInstance fun w => ?_
    by_cases hw : (w = "in" || w = "instanceof") = true
    · have hspelled : Spelled w (some .operator) := by
        refine .of_oneLine (oneLine_of_mem_operators w ?_) _
        simp only [Bool.or_eq_true, decide_eq_true_eq] at hw
        rcases hw with rfl | rfl <;> decide
      infer_instance
    · simp only [if_neg hw]
      infer_instance

instance keeps_suffix (level : Nat) : Keeps chars (suffix g level) := by
  unfold suffix
  refine .bind inferInstance fun ended => @keeps_ite _ _ _ _ _ _ inferInstance ?_
  refine .bind inferInstance fun sign => ?_
  split
  · infer_instance
  · next op =>
    have hjoined := @keeps_joined chars g inferInstance level op
    have hless : Spelled "<" (some .operator) := .of_oneLine (by decide) _
    by_cases hop : Text.OneLine op
    · have hspelled : Spelled op (some .operator) := .of_oneLine hop _
      infer_instance
    · have hupdate : ¬(op = "++" || op = "--") = true := by
        simp only [Bool.or_eq_true, decide_eq_true_eq]
        rintro (rfl | rfl) <;> exact hop (by decide)
      have hassign : ¬(op = "=" || augmentedOperators.contains op) = true := by
        simp only [Bool.or_eq_true, decide_eq_true_eq, List.contains_iff_mem]
        rintro (rfl | hmem)
        · exact hop (by decide)
        · exact hop (oneLine_of_mem_operators op (by simp [hmem]))
      simp only [if_neg hupdate, if_neg hassign]
      infer_instance

instance keeps_expression (level : Nat) : Keeps chars (expression g level) := by
  unfold expression
  infer_instance

instance keeps_expressions : Keeps chars (expressions g) := by
  unfold expressions
  infer_instance

end Expressions

section Members

instance keeps_statementContext (p : Reading Unit) [Keeps chars p] :
    Keeps chars (statementContext p) := by
  unfold statementContext
  infer_instance

instance keeps_lastHasValue : Keeps chars lastHasValue := by
  unfold lastHasValue
  infer_instance

instance keeps_fieldWords : Keeps chars fieldWords := by
  unfold fieldWords
  infer_instance

instance keeps_field : Keeps chars (field g) := by
  unfold field
  infer_instance

instance keeps_abstractMethod : Keeps chars (abstractMethod g) := by
  unfold abstractMethod
  infer_instance

instance keeps_staticBlock : Keeps chars (staticBlock g) := by
  unfold staticBlock
  infer_instance

instance keeps_memberEnd (afterValue : Bool) : Keeps chars (memberEnd afterValue) := by
  unfold memberEnd
  infer_instance

instance keeps_classMember : Keeps chars (classMember g) := by
  unfold classMember
  infer_instance

instance keeps_classBody : Keeps chars (classBody g) := by
  unfold classBody
  infer_instance

end Members

section Declarations

instance keeps_declarator : Keeps chars (declarator g) := by
  unfold declarator
  infer_instance

instance keeps_declarators : Keeps chars (declarators g) := by
  unfold declarators
  infer_instance

instance keeps_variableDeclaration : Keeps chars (variableDeclaration g) := by
  unfold variableDeclaration
  infer_instance

instance keeps_signature : Keeps chars (functionDeclaration.signature g) := by
  unfold functionDeclaration.signature
  infer_instance

-- The names of a function are its own, as its parameters and its body have other roles.
instance keeps_functionDeclaration [KeepsNames chars (g .callSignature)]
    [KeepsNames chars (withRole (some .body) (g (.block false)))] :
    Keeps chars (functionDeclaration g) := by
  have : KeepsNames chars (functionDeclaration.signature g) := by
    unfold functionDeclaration.signature identifier
    infer_instance
  unfold functionDeclaration
  refine @keeps_otherwise _ _ _ _ (keeps_node_of_names _ (by decide) _ _) fun _ => ?_
  refine @keeps_otherwise _ _ _ _ (keeps_node_of_names _ (by decide) _ _) fun _ => ?_
  infer_instance

instance keeps_classDeclaration : Keeps chars (classDeclaration g) := by
  unfold classDeclaration
  infer_instance

instance keeps_enumMember : Keeps chars (enumMember g) := by
  unfold enumMember
  infer_instance

instance keeps_enumDeclaration : Keeps chars (enumDeclaration g) := by
  unfold enumDeclaration
  infer_instance

instance keeps_interfaceDeclaration : Keeps chars (interfaceDeclaration g) := by
  unfold interfaceDeclaration
  infer_instance

instance keeps_typeAlias : Keeps chars (typeAlias g) := by
  unfold typeAlias
  infer_instance

instance keeps_importAlias : Keeps chars importAlias := by
  unfold importAlias
  infer_instance

instance keeps_moduleDeclaration : Keeps chars (moduleDeclaration g) := by
  unfold moduleDeclaration
  infer_instance

instance keeps_ambientDeclaration : Keeps chars (ambientDeclaration g) := by
  unfold ambientDeclaration
  infer_instance

instance keeps_declaration [KeepsNames chars (g .callSignature)]
    [KeepsNames chars (withRole (some .body) (g (.block false)))] :
    Keeps chars (declaration g) := by
  unfold declaration
  infer_instance

end Declarations

section Statements

instance keeps_exportedName (role : Option Role) : Keeps chars (exportedName role) := by
  unfold exportedName
  infer_instance

instance keeps_fromClause : Keeps chars fromClause := by
  unfold fromClause
  infer_instance

instance keeps_typeWord (p : Reading Unit) [Keeps chars p] : Keeps chars (typeWord p) := by
  unfold typeWord
  infer_instance

instance keeps_exportClause : Keeps chars exportClause := by
  unfold exportClause
  infer_instance

instance keeps_exportedList : Keeps chars exportedList := by
  unfold exportedList
  infer_instance

instance keeps_exportStatement : Keeps chars (exportStatement g) := by
  unfold exportStatement
  infer_instance

instance keeps_namedImports : Keeps chars namedImports := by
  unfold namedImports
  infer_instance

instance keeps_importClause : Keeps chars importClause := by
  unfold importClause
  infer_instance

instance keeps_importStatement : Keeps chars (importStatement g) := by
  unfold importStatement
  infer_instance

instance keeps_ifStatement : Keeps chars (ifStatement g) := by
  unfold ifStatement
  infer_instance

instance keeps_caseBody : Keeps chars (caseBody g) := by
  unfold caseBody
  infer_instance

instance keeps_switchStatement : Keeps chars (switchStatement g) := by
  unfold switchStatement
  infer_instance

instance keeps_forInStatement : Keeps chars (forInStatement g) := by
  have hbetween : Keeps chars (anyWord ["in", "of"] (some .operator)) :=
    keeps_anyWord fun text ht => by
      have hline : ∀ text ∈ ["in", "of"], Text.OneLine text := by decide
      exact .of_oneLine (hline text ht) _
  unfold forInStatement
  infer_instance

instance keeps_loopPart (role : Role) : Keeps chars (loopPart g role) := by
  unfold loopPart
  infer_instance

instance keeps_forStatement : Keeps chars (forStatement g) := by
  unfold forStatement
  infer_instance

instance keeps_whileStatement : Keeps chars (whileStatement g) := by
  unfold whileStatement
  infer_instance

instance keeps_doStatement : Keeps chars (doStatement g) := by
  unfold doStatement
  infer_instance

instance keeps_tryStatement : Keeps chars (tryStatement g) := by
  unfold tryStatement
  infer_instance

instance keeps_withStatement : Keeps chars (withStatement g) := by
  unfold withStatement
  infer_instance

instance keeps_jump (kind : Kind) [Fails kind.bearsName] (w : String) :
    Keeps chars (jump kind w) := by
  unfold jump
  infer_instance

instance keeps_returnStatement : Keeps chars (returnStatement g) := by
  unfold returnStatement
  infer_instance

instance keeps_throwStatement : Keeps chars (throwStatement g) := by
  unfold throwStatement
  infer_instance

instance keeps_expressionStatement : Keeps chars (expressionStatement g) := by
  unfold expressionStatement
  infer_instance

instance keeps_labeledStatement : Keeps chars (labeledStatement g) := by
  unfold labeledStatement
  infer_instance

instance keeps_emptyStatement : Keeps chars emptyStatement := by
  unfold emptyStatement
  infer_instance

instance keeps_debuggerStatement : Keeps chars debuggerStatement := by
  unfold debuggerStatement
  infer_instance

instance keeps_labeledOrExpression : Keeps chars (labeledOrExpression g) := by
  unfold labeledOrExpression
  infer_instance

theorem keeps_reservedStatement {w : String} {p : Reading Unit}
    (h : reservedStatement g w = some p) : Keeps chars p := by
  unfold reservedStatement at h
  split at h <;> cases h <;> infer_instance

instance keeps_statement : Keeps chars (statement g) := by
  unfold statement
  refine @keeps_statementContext _ _ ?_
  refine .bind inferInstance fun next => ?_
  have hword : Keeps chars (do
      let w ← peekWord
      match reservedStatement g w with
      | some p => p
      | none =>
        if w = "" || w = "namespace" then labeledOrExpression g
        else if w = "import" then importStatement g <|> g .declaration <|> expressionStatement g
        else g .declaration <|> labeledOrExpression g) := by
    refine .bind inferInstance fun w => ?_
    split
    · next p hp => exact keeps_reservedStatement hp
    · infer_instance
  infer_instance

instance keeps_block (afterValue : Bool) : Keeps chars (block g afterValue) := by
  unfold block
  infer_instance

end Statements

section Table

variable {g : Rules}

instance keepsNames_typeParameters : KeepsNames chars (typeParameters g) := by
  unfold typeParameters
  infer_instance

instance keepsNames_formalParameters : KeepsNames chars (formalParameters g) := by
  unfold formalParameters
  infer_instance

instance keepsNames_resultType : KeepsNames chars (resultType g) := by
  unfold resultType typeClause
  infer_instance

instance keepsNames_callSignature [KeepsNames chars (g .typeParameters)]
    [KeepsNames chars (g .formalParameters)] : KeepsNames chars (callSignature g) := by
  unfold callSignature
  infer_instance

-- A table whose rules make plain trees. What is read for a function besides its name is no name.
structure RulesPlain (chars : Array Char) (g : Rules) : Prop where
  keeps : ∀ rule, Keeps chars (g rule)
  typeParameters : KeepsNames chars (g .typeParameters)
  formalParameters : KeepsNames chars (g .formalParameters)
  callSignature : KeepsNames chars (g .callSignature)
  body : KeepsNames chars (withRole (some .body) (g (.block false)))

theorem RulesPlain.step (h : RulesPlain chars g) : RulesPlain chars (step g) where
  keeps rule := by
    have := h.keeps
    have := h.callSignature
    have := h.body
    cases rule <;> unfold Grammar.step <;> infer_instance
  typeParameters := keepsNames_typeParameters
  formalParameters := keepsNames_formalParameters
  callSignature := by
    have := h.typeParameters
    have := h.formalParameters
    exact keepsNames_callSignature
  body := keepsNames_withRole_node .statementBlock .body rfl none _

-- However far references between rules are followed, only plain trees are made.
theorem rulesPlain_rules (chars : Array Char) (depth : Nat) : RulesPlain chars (rules depth) := by
  induction depth with
  | zero =>
    refine ⟨fun _ => keeps_refuse, keepsNames_refuse, keepsNames_refuse, keepsNames_refuse, ?_⟩
    change KeepsNames chars (refuse >>= fun _ => change _)
    refine ⟨fun c s a s' _ _ h => ?_⟩
    obtain ⟨_, _, hrefused, _⟩ := bind_eq_done.mp h
    cases hrefused
  | succ depth ih => exact ih.step

instance keeps_hashBangLine : Keeps chars hashBangLine := by
  unfold hashBangLine
  infer_instance

theorem RulesPlain.program (h : RulesPlain chars g) : Keeps chars (program g) := by
  have := h.keeps
  have hstart : Keeps chars (Reading.optional hashBangLine) := inferInstance
  have hstatements : Keeps chars (many (g .statement)) := inferInstance
  unfold Grammar.program
  refine @keeps_node _ _ _ _ _ (.bind inferInstance fun _ => .bind hstart fun _ =>
    .bind hstatements fun _ => .bind inferInstance fun next => ?_)
  split <;> infer_instance

end Table

end Likeness.Syntax.Grammar
