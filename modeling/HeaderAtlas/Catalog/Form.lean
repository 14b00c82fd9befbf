import HeaderAtlas.Catalog.Basic
import HeaderAtlas.Json

/-!
# The stored form of a catalogue

A catalogue is written as a JSON document. The fields come in a fixed order and
the tables are objects in the order of their names. Every optional part is
written, as `null` when it is absent; only the nested fields of a field are left
out when there are none.
-/

namespace HeaderAtlas

/-- The stored form of a parameter. -/
def Param.form (p : Param) : Json :=
  .object [("type_name", .text p.type), ("name", .optText p.name),
    ("description", .optText p.description)]

/-- The stored form of a signature. -/
def FunctionDetail.form (d : FunctionDetail) : Json :=
  .object [("return_type", .text d.returnType), ("return_description", .text d.returnDescription),
    ("params", .list (d.params.map Param.form)), ("description", .text d.description)]

/-- The stored form of a described macro argument. -/
def MacroArg.form (a : MacroArg) : Json :=
  .object [("name", .text a.name), ("description", .text a.description)]

/-- The stored form of a macro definition. -/
def MacroDetail.form (d : MacroDetail) : Json :=
  .object [("params", .texts d.params), ("args", .list (d.args.map MacroArg.form)),
    ("description", .text d.description), ("string_value", .optText d.stringValue)]

mutual

/-- The stored form of a field. -/
def Field.form : Field → Json
  | ⟨type, name, description, nested⟩ =>
    let own := [("type_name", Json.text type), ("name", .text name),
      ("description", .optText description)]
    match nested with
    | [] => .object own
    | f :: fs => .object (own ++ [("nested", .list (Field.form f :: Field.forms fs))])

/-- The stored forms of fields. -/
def Field.forms : List Field → List Json
  | [] => []
  | f :: fs => Field.form f :: Field.forms fs

end

/-- The stored form of an enumerator's value. -/
def EnumValue.form (v : EnumValue) : Json :=
  .object [("value", .text v.value), ("numeric", (v.numeric.map Json.int).getD .null),
    ("bit_shift", (v.bitShift.map Json.nat).getD .null), ("description", .text v.description),
    ("enum_type", .optText v.enumType)]

/-- The key that tells the kinds of detail apart. -/
def Detail.key : Detail → String
  | function _ => "function"
  | macroDef _ => "macro"
  | fields _ => "fields"
  | enumerator _ => "enum_member"
  | type _ => "type"

/-- The stored form of a detail: one field, named for its kind. -/
def Detail.form (d : Detail) : Json :=
  let body := match d with
    | function d => d.form
    | macroDef d => d.form
    | fields fs => .list (Field.forms fs)
    | enumerator v => v.form
    | type t => .text t
  .object [(d.key, body)]

/-- The stored form of an entry. -/
def Entry.form (e : Entry) : Json :=
  .object [("name", .text e.name), ("header", .optText e.header), ("module", .optText e.module),
    ("kind", .text e.category.key), ("info", (e.detail.map Detail.form).getD .null),
    ("extra", .optText e.extra), ("line", .nat e.line), ("is_static", .bool e.isStatic),
    ("conditionals", .texts e.guards)]

/-- The stored form of the uses of a name. -/
def Usage.form (u : Usage) : Json :=
  .object [("name", .text u.name), ("kind", .text u.role.key), ("module", .text u.module),
    ("lines", .list (u.lines.map Json.nat))]

/-- A map as an object. -/
def NameMap.form {α : Type} (f : α → Json) (m : NameMap α) : Json :=
  .object (m.entries.map fun (k, v) => (k, f v))

/-- The stored form of a catalogue. -/
def Catalog.form (c : Catalog) : Json :=
  .object [("name", .text c.name), ("functions", c.functions.form Entry.form),
    ("variables", c.vars.form Entry.form), ("includes", c.inclusions.form Entry.form),
    ("structs", c.structs.form Entry.form), ("unions", c.unions.form Entry.form),
    ("enums", c.enumerators.form Entry.form), ("typedefs", c.typedefs.form Entry.form),
    ("macros", c.macros.form Entry.form), ("references", c.usages.form Usage.form),
    ("info", c.info.form Json.text)]

end HeaderAtlas
