-- Documents as plain values, section by section.
import EnergyGraph.Document.Basic
import EnergyGraph.Expr.Outline

namespace EnergyGraph

def Aggregator.outline (a : Aggregator Float) : Value :=
  .object [("kind", .text a.kind.name), ("beta", .float a.beta), ("alpha", .float a.alpha)]

namespace Document

def shapeOutline (shape : List Dim) : Value := .list (shape.map Dim.value)

def boundsOutline : Option (Value × Value) → Value
  | some (lower, upper) => .list [lower, upper]
  | none => .null

/-- A declaration that stands in place; nothing for a reference by id. -/
def inlineOutline {α : Type} (f : α → Value) : Reference α → Value
  | .inline a => f a
  | .named _ => .null

end Document

open Document (shapeOutline boundsOutline inlineOutline)

def Parameter.outline (p : Parameter) : Value :=
  .object [("name", .text p.name), ("type", .text p.type.name), ("default", p.default.typed),
    ("required", .bool p.required), ("has_default", .bool !p.required),
    ("bounds", boundsOutline p.bounds), ("description", .text p.description)]

def Variable.outline (v : Variable) : Value :=
  .object [("name", .text v.name), ("type", .text v.type.name), ("shape", shapeOutline v.shape),
    ("bounds", .list [v.lower, v.upper])]

def DataDecl.outline (d : DataDecl) : Value :=
  .object [("name", .text d.name), ("source", .ofOption .text d.source), ("values", d.values),
    ("shape", .ofOption shapeOutline d.shape)]

def FunctionDecl.outline (f : FunctionDecl) : Value :=
  .object [("id", .text f.id), ("kind", .text f.kind.name), ("locator", .text f.locator)]

def InteractionDecl.outline (i : InteractionDecl) : Value :=
  .object [("id", .text i.id), ("kind", .text i.kind.name), ("bind", .ofOption .texts i.bind),
    ("spec", .object i.spec), ("inline", .bool i.inline)]

def TermDecl.outline (t : TermDecl) : Value :=
  .object [("id", .text t.id), ("kind", .text t.kind.name), ("arity", t.arity.value),
    ("expr", .ofOption Formula.outline t.expr), ("function", .ofOption .text t.function),
    ("args", .list (t.args.map Formula.outline)), ("compat", .texts t.compat),
    ("inline", .bool t.inline)]

def ComponentDecl.outline (c : ComponentDecl) : Value :=
  .object [("id", .text c.id), ("term_id", .text c.termId),
    ("term", inlineOutline TermDecl.outline c.term), ("interaction_id", .text c.interactionId),
    ("interaction", inlineOutline InteractionDecl.outline c.interaction),
    ("aggregator", .ofOption Aggregator.outline c.aggregator)]

def WeightedUse.outline (u : WeightedUse) : Value :=
  .object [("use", .text u.use), ("weight", u.weight.outline)]

def HamiltonianDecl.outline (h : HamiltonianDecl) : Value :=
  .object [("id", .text h.id), ("components", .list (h.components.map WeightedUse.outline)),
    ("couples", .texts h.couples), ("type", .ofOption (fun t => .text t.name) h.type),
    ("derived_type", .text h.derivedType.name)]

def Document.outline (d : Document) : Value :=
  .object [("version", .text d.version), ("name", .text d.name), ("index_base", .int d.indexBase),
    ("expr_lang", .text d.exprLang),
    ("parameters", .list (d.parameters.map Parameter.outline)),
    ("variables", .list (d.vars.map Variable.outline)),
    ("data", .list (d.data.map DataDecl.outline)),
    ("functions", .list (d.functions.map FunctionDecl.outline)),
    ("interactions", .list (d.interactions.map InteractionDecl.outline)),
    ("terms", .list (d.terms.map TermDecl.outline)),
    ("components", .list (d.components.map ComponentDecl.outline)),
    ("hamiltonians", .list (d.hamiltonians.map HamiltonianDecl.outline)),
    ("ensemble", .list (d.ensemble.map WeightedUse.outline))]

end EnergyGraph
