-- SUMMARY: How one node is written: sites, expressions and statements as documents.
import TypeStyle.Layout.Doc
import TypeStyle.Syntax.Expr
import TypeStyle.Syntax.Site
import TypeStyle.Syntax.Stmt

/-! # The written form of a node

Each site, expression and statement has a document of its own, in which the sites
and expressions it mentions are references. Nothing here looks into a tree. -/

namespace TypeStyle

/-- A mention of a node in a tree's tables. -/
inductive Ref where
  | site (id : NodeId)
  | expr (id : ExprId)
  deriving DecidableEq, Repr

/-- A slot: its type between its trivia. -/
def TypeExpr.slotDoc (t : TypeExpr) : Doc Ref :=
  .text (Trivia.textOf t.info.leading) ++ .mark (.slot t.id) (.text t.text) ++
    .text (Trivia.textOf t.info.trailing)

/-- Each element type with its part of the pattern, in parentheses. -/
def distributedText (elements : List TypeExpr) (parts : List Pattern) : String :=
  let pairs := List.zipWith (fun t p => t.text ++ " " ++ p.text) elements parts
  "(" ++ String.intercalate ", " pairs ++ ")"

/-- A pattern with its slot. A tuple type is distributed over a group of as many
    parts; blanks that would separate the type from the group are left out. -/
def Pattern.doc (slot : TypeExpr) : Pattern → Doc Ref
  | .group parts =>
    match slot with
    | .tuple info elements =>
      if elements.length = parts.length then
        .text (Trivia.textOf info.leading) ++
          .mark (.slot info.id) (.text (distributedText elements parts)) ++
          .text (Trivia.textOf (Trivia.withoutFinalBlanks info.trailing))
      else
        slot.slotDoc ++ .text (Pattern.group parts).text
    | _ => slot.slotDoc ++ .text (Pattern.group parts).text
  | p => slot.slotDoc ++ .text p.text

/-- The words before the slot of a declaration of variables. -/
def Holder.opening : Holder → String
  | .statement isConst isUsing =>
    (if isUsing then "using " else "") ++ (if isConst then "const " else "")
  | .field => ""
  | .eventField => "event "

def Declarator.doc (d : Declarator) : Doc Ref :=
  .mark (.declarator d.id) <|
    match d.init with
    | none => .text d.name
    | some e => .text d.name ++ .text " = " ++ .ref (.expr e)

def Site.doc (s : Site) : Doc Ref :=
  .mark (.site s.id) <|
    match s.shape with
    | .«variables» holder declarators =>
      .text holder.opening ++ s.slot.slotDoc ++ .commaSeparated (declarators.map Declarator.doc)
    | .foreach name => s.slot.slotDoc ++ .text name
    | .outArg name => .text "out " ++ s.slot.slotDoc ++ .text name
    | .pattern parts => parts.doc s.slot

def Arg.doc : Arg → Doc Ref
  | .value e => .ref (.expr e)
  | .outExisting name => .text ("out " ++ name)
  | .outSite site => .ref (.site site)

def Arg.listDoc (args : List Arg) : Doc Ref :=
  .text "(" ++ .commaSeparated (args.map Arg.doc) ++ .text ")"

/-- The quotes on either side of a string literal. -/
def quoteMarks (raw : Bool) : String :=
  if raw then "\"\"\"" else "\""

def Expr.doc : Expr → Doc Ref
  | .str marker contents raw => .text (marker ++ quoteMarks raw ++ contents ++ quoteMarks raw)
  | .number text => .text text
  | .char contents => .text ("'" ++ contents ++ "'")
  | .bool value => .text (if value then "true" else "false")
  | .null => .text "null"
  | .ident name => .text name
  | .member receiver name => .ref (.expr receiver) ++ .text ("." ++ name)
  | .call callee args => .ref (.expr callee) ++ Arg.listDoc args
  | .cast type operand => .text ("(" ++ type.text ++ ")") ++ .ref (.expr operand)
  | .asType operand type => .ref (.expr operand) ++ .text (" as " ++ type.text)
  | .defaultOf none => .text "default"
  | .defaultOf (some type) => .text ("default(" ++ type.text ++ ")")
  | .new type args => .text ("new " ++ type.text) ++ Arg.listDoc args
  | .lambda [param] body => .text (param ++ " => ") ++ .ref (.expr body)
  | .lambda params body =>
    .text ("(" ++ String.intercalate ", " params ++ ") => ") ++ .ref (.expr body)
  | .binary op left right =>
    .ref (.expr left) ++ .text (" " ++ op.text ++ " ") ++ .ref (.expr right)
  | .unparsed text => .mark (.fault s!"unexpected `{text}`") (.text text)

/-! ## Statements -/

/-- The beginning of a line at nesting depth `depth`. -/
def indentation (depth : Nat) : String :=
  String.join (List.replicate depth "    ")

/-- Braces around the lines of a body; an empty body stays on its line. -/
def braced (depth : Nat) (isEmpty : Bool) (lines : Doc Ref) : Doc Ref :=
  if isEmpty then .text "\x7b\x7d"
  else .text "\x7b\n" ++ lines ++ .text (indentation depth ++ "\x7d")

def classHeader (name : String) (typeParams : List String) : String :=
  "class " ++ name ++
    (if typeParams.isEmpty then "" else "<" ++ String.intercalate ", " typeParams ++ ">") ++ " "

mutual

def Stmt.doc (depth : Nat) : Stmt → Doc Ref
  | .usingNamespace name => .text ("using " ++ name ++ ";")
  | .classDef name typeParams members =>
    .text (classHeader name typeParams) ++
      braced depth members.isEmpty (Stmt.linesDoc (depth + 1) members)
  | .method returns name body =>
    .text (returns ++ " " ++ name ++ "() ") ++
      braced depth body.isEmpty (Stmt.linesDoc (depth + 1) body)
  | .declaration site => .ref (.site site) ++ .text ";"
  | .foreach site collection body =>
    .text "foreach (" ++ .ref (.site site) ++ .text " in " ++ .ref (.expr collection) ++
      .text ") " ++ braced depth body.isEmpty (Stmt.linesDoc (depth + 1) body)
  | .deconstruction site value => .ref (.site site) ++ .text " = " ++ .ref (.expr value) ++ .text ";"
  | .branch condition body =>
    .text "if (" ++ .ref (.expr condition) ++ .text ") " ++
      braced depth body.isEmpty (Stmt.linesDoc (depth + 1) body)
  | .expr e => .ref (.expr e) ++ .text ";"

/-- Statements, each on a line of its own. -/
def Stmt.linesDoc (depth : Nat) : List Stmt → Doc Ref
  | [] => .text ""
  | stmt :: stmts =>
    .text (indentation depth) ++ stmt.doc depth ++ .text "\n" ++ Stmt.linesDoc depth stmts

end

end TypeStyle
