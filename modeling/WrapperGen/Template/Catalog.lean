import WrapperGen.Template.Basic

/-!
# The templates

The templates of the four kinds of generated files: the lines each is written in, and the parts they are
read as. Every line of a file stands on a line of its own among the parts; lines that depend on the context
stand below their condition or their list.
-/

namespace WrapperGen.Template

/-- The module of a class for the front end. -/
def jsWrapper : Template where
  name := "js_wrapper"
  lines := [
    "//",
    "// This file auto-generated with classgen " ++ tag "version",
    "// Do not edit: changes are overwritten on the next run.",
    tag "#if override_import",
    "// Extended by " ++ tag "override_import" ++ ", which exports " ++ tag "model_name" ++ ".",
    tag "/if",
    "//",
    "",
    "import * as " ++ tag "library.namespace" ++ " from '" ++ tag "library.module" ++ "';",
    tag "#if has_serializers",
    "import \x7b unpackModels \x7d from '" ++ tag "helpers_import" ++ "';",
    tag "/if",
    "",
    "import \x7b " ++ tag "super_class.symbol" ++ " \x7d from '" ++ tag "super_class.path" ++ "';",
    tag "#each imports",
    "import \x7b " ++ tag "symbol" ++ " \x7d from '" ++ tag "path" ++ "';",
    tag "/each",
    "",
    "/**",
    " * " ++ tag "class_name",
    " *",
    " * " ++ tag "docs_url",
    " */",
    "class " ++ tag "export_name" ++ " extends " ++ tag "super_class.symbol" ++ " \x7b",
    "",
    "    defaults() \x7b",
    "        return \x7b",
    "            ...super.defaults(),",
    "            _model_name: '" ++ tag "model_name" ++ "',",
    tag "#each properties",
    "            " ++ tag "name" ++ ": " ++ tag "default" ++ ",",
    tag "/each",
    "        \x7d;",
    "    \x7d",
    "",
    "    constructThreeObject() \x7b",
    "        const result = new " ++ tag "library.namespace" ++ "." ++ tag "class_name" ++ "(",
    tag "#each constructor_args",
    "            " ++ tag "this" ++ ",",
    tag "/each",
    "        );",
    "        return Promise.resolve(result);",
    "    \x7d",
    "",
    "    createPropertiesArrays() \x7b",
    "        super.createPropertiesArrays();",
    tag "#each properties",
    tag "#if grouping",
    "        this." ++ tag "grouping" ++ "_properties.push('" ++ tag "name" ++ "');",
    tag "/if",
    tag "#if external",
    "        this.props_created_by_library['" ++ tag "name" ++ "'] = true;",
    tag "/if",
    tag "#if converter",
    "        this.property_converters['" ++ tag "name" ++ "'] = 'convert" ++ tag "converter" ++ "';",
    tag "/if",
    tag "#if assigner",
    "        this.property_assigners['" ++ tag "name" ++ "'] = 'assign" ++ tag "assigner" ++ "';",
    tag "/if",
    tag "/each",
    tag "#each enums",
    "        this.enum_property_types['" ++ tag "name" ++ "'] = '" ++ tag "enum_type" ++ "';",
    tag "/each",
    "    \x7d",
    "",
    "\x7d",
    "",
    tag "export_name" ++ ".model_name = '" ++ tag "model_name" ++ "';",
    tag "#if has_serializers",
    tag "export_name" ++ ".serializers = \x7b",
    "    ..." ++ tag "super_class.symbol" ++ ".serializers,",
    tag "#each serialized",
    "    " ++ tag "name" ++ ": \x7b deserialize: " ++ tag "serializer" ++ " \x7d,",
    tag "/each",
    "\x7d;",
    tag "/if",
    "",
    "export \x7b",
    "    " ++ tag "export_name",
    "\x7d;"]
  parts := [
    .text "//\n",
    .text "// This file auto-generated with classgen ", .print ["version"], .text "\n",
    .text "// Do not edit: changes are overwritten on the next run.\n",
    .when ["override_import"] [
      .text "// Extended by ", .print ["override_import"], .text ", which exports ",
        .print ["model_name"], .text ".\n"],
    .text "//\n",
    .text "\n",
    .text "import * as ", .print ["library", "namespace"], .text " from '",
      .print ["library", "module"], .text "';\n",
    .when ["has_serializers"] [
      .text "import \x7b unpackModels \x7d from '", .print ["helpers_import"], .text "';\n"],
    .text "\n",
    .text "import \x7b ", .print ["super_class", "symbol"], .text " \x7d from '",
      .print ["super_class", "path"], .text "';\n",
    .each ["imports"] [
      .text "import \x7b ", .print ["symbol"], .text " \x7d from '", .print ["path"],
        .text "';\n"],
    .text "\n",
    .text "/**\n",
    .text " * ", .print ["class_name"], .text "\n",
    .text " *\n",
    .text " * ", .print ["docs_url"], .text "\n",
    .text " */\n",
    .text "class ", .print ["export_name"], .text " extends ", .print ["super_class", "symbol"],
      .text " \x7b\n",
    .text "\n",
    .text "    defaults() \x7b\n",
    .text "        return \x7b\n",
    .text "            ...super.defaults(),\n",
    .text "            _model_name: '", .print ["model_name"], .text "',\n",
    .each ["properties"] [
      .text "            ", .print ["name"], .text ": ", .print ["default"], .text ",\n"],
    .text "        \x7d;\n",
    .text "    \x7d\n",
    .text "\n",
    .text "    constructThreeObject() \x7b\n",
    .text "        const result = new ", .print ["library", "namespace"], .text ".",
      .print ["class_name"], .text "(\n",
    .each ["constructor_args"] [.text "            ", .print [], .text ",\n"],
    .text "        );\n",
    .text "        return Promise.resolve(result);\n",
    .text "    \x7d\n",
    .text "\n",
    .text "    createPropertiesArrays() \x7b\n",
    .text "        super.createPropertiesArrays();\n",
    .each ["properties"] [
      .when ["grouping"] [
        .text "        this.", .print ["grouping"], .text "_properties.push('", .print ["name"],
          .text "');\n"],
      .when ["external"] [
        .text "        this.props_created_by_library['", .print ["name"], .text "'] = true;\n"],
      .when ["converter"] [
        .text "        this.property_converters['", .print ["name"], .text "'] = 'convert",
          .print ["converter"], .text "';\n"],
      .when ["assigner"] [
        .text "        this.property_assigners['", .print ["name"], .text "'] = 'assign",
          .print ["assigner"], .text "';\n"]],
    .each ["enums"] [
      .text "        this.enum_property_types['", .print ["name"], .text "'] = '",
        .print ["enum_type"], .text "';\n"],
    .text "    \x7d\n",
    .text "\n",
    .text "\x7d\n",
    .text "\n",
    .print ["export_name"], .text ".model_name = '", .print ["model_name"], .text "';\n",
    .when ["has_serializers"] [
      .print ["export_name"], .text ".serializers = \x7b\n",
      .text "    ...", .print ["super_class", "symbol"], .text ".serializers,\n",
      .each ["serialized"] [
        .text "    ", .print ["name"], .text ": \x7b deserialize: ", .print ["serializer"],
          .text " \x7d,\n"],
      .text "\x7d;\n"],
    .text "\n",
    .text "export \x7b\n",
    .text "    ", .print ["export_name"], .text "\n",
    .text "\x7d;\n"]
  reads := read?_of_ascii (by decide +kernel)

/-- The index of a directory. -/
def jsIndex : Template where
  name := "js_index"
  lines := [
    "//",
    "// This file auto-generated with classgen " ++ tag "version",
    "//",
    tag "#if top",
    "",
    "import * as " ++ tag "library.namespace" ++ " from '" ++ tag "library.module" ++ "';",
    "export \x7b " ++ tag "library.namespace" ++ " \x7d;",
    tag "/if",
    "",
    tag "#each modules",
    "export * from '" ++ tag "this" ++ "';",
    tag "/each"]
  parts := [
    .text "//\n",
    .text "// This file auto-generated with classgen ", .print ["version"], .text "\n",
    .text "//\n",
    .when ["top"] [
      .text "\n",
      .text "import * as ", .print ["library", "namespace"], .text " from '",
        .print ["library", "module"], .text "';\n",
      .text "export \x7b ", .print ["library", "namespace"], .text " \x7d;\n"],
    .text "\n",
    .each ["modules"] [.text "export * from '", .print [], .text "';\n"]]
  reads := read?_of_ascii (by decide +kernel)

/-- The module of a class for the package. -/
def pyWrapper : Template where
  name := "py_wrapper"
  lines := [
    "#",
    "# This file auto-generated with classgen " ++ tag "version",
    "# Do not edit: changes are overwritten on the next run.",
    tag "#if override_import",
    "# Extended by " ++ tag "override_import" ++ ", which defines " ++ tag "class_name" ++ ".",
    tag "/if",
    "#",
    "",
    "from traitlets import (",
    "    Any, Bool, CFloat, CInt, Dict, Enum, Instance, List, Tuple, Unicode, This",
    ")",
    tag "#if has_serializers",
    "from ipywidgets import widget_serialization",
    tag "/if",
    "",
    "from " ++ tag "traits_import" ++ " import *",
    tag "#if has_enums",
    "from " ++ tag "enums_import" ++ " import *",
    tag "/if",
    "",
    "from " ++ tag "super_class.path" ++ " import " ++ tag "super_class.symbol",
    tag "#each imports",
    "from " ++ tag "path" ++ " import " ++ tag "symbol",
    tag "/each",
    "",
    "",
    "class " ++ tag "export_name" ++ "(" ++ tag "super_class.symbol" ++ "):",
    "    \"\"\"" ++ tag "class_name",
    "",
    "    Autogenerated wrapper for " ++ tag "library.namespace" ++ "." ++ tag "class_name",
    "    See " ++ tag "docs_url",
    "    \"\"\"",
    "",
    "    def __init__(self" ++ tag "#each init_args" ++ ", " ++ tag "name" ++ "=" ++ tag "default" ++ tag "/each" ++ ", **kwargs):",
    tag "#each init_args",
    "        kwargs['" ++ tag "name" ++ "'] = " ++ tag "name",
    tag "/each",
    "        super(" ++ tag "export_name" ++ ", self).__init__(**kwargs)",
    "",
    "    _model_name = Unicode('" ++ tag "model_name" ++ "').tag(sync=True)",
    "",
    tag "#each properties",
    "    " ++ tag "name" ++ " = " ++ tag "declaration",
    "",
    tag "/each",
    "",
    "__all__ = ['" ++ tag "export_name" ++ "']"]
  parts := [
    .text "#\n",
    .text "# This file auto-generated with classgen ", .print ["version"], .text "\n",
    .text "# Do not edit: changes are overwritten on the next run.\n",
    .when ["override_import"] [
      .text "# Extended by ", .print ["override_import"], .text ", which defines ",
        .print ["class_name"], .text ".\n"],
    .text "#\n",
    .text "\n",
    .text "from traitlets import (\n",
    .text "    Any, Bool, CFloat, CInt, Dict, Enum, Instance, List, Tuple, Unicode, This\n",
    .text ")\n",
    .when ["has_serializers"] [.text "from ipywidgets import widget_serialization\n"],
    .text "\n",
    .text "from ", .print ["traits_import"], .text " import *\n",
    .when ["has_enums"] [.text "from ", .print ["enums_import"], .text " import *\n"],
    .text "\n",
    .text "from ", .print ["super_class", "path"], .text " import ",
      .print ["super_class", "symbol"], .text "\n",
    .each ["imports"] [
      .text "from ", .print ["path"], .text " import ", .print ["symbol"], .text "\n"],
    .text "\n",
    .text "\n",
    .text "class ", .print ["export_name"], .text "(", .print ["super_class", "symbol"],
      .text "):\n",
    .text "    \"\"\"", .print ["class_name"], .text "\n",
    .text "\n",
    .text "    Autogenerated wrapper for ", .print ["library", "namespace"], .text ".",
      .print ["class_name"], .text "\n",
    .text "    See ", .print ["docs_url"], .text "\n",
    .text "    \"\"\"\n",
    .text "\n",
    .text "    def __init__(self", .each ["init_args"] [.text ", ", .print ["name"], .text "=",
      .print ["default"]], .text ", **kwargs):\n",
    .each ["init_args"] [
      .text "        kwargs['", .print ["name"], .text "'] = ", .print ["name"], .text "\n"],
    .text "        super(", .print ["export_name"], .text ", self).__init__(**kwargs)\n",
    .text "\n",
    .text "    _model_name = Unicode('", .print ["model_name"], .text "').tag(sync=True)\n",
    .text "\n",
    .each ["properties"] [
      .text "    ", .print ["name"], .text " = ", .print ["declaration"], .text "\n",
      .text "\n"],
    .text "\n",
    .text "__all__ = ['", .print ["export_name"], .text "']\n"]
  reads := read?_of_ascii (by decide +kernel)

/-- The aggregator of the package. -/
def pyPackage : Template where
  name := "py_package"
  lines := [
    "#",
    "# This file auto-generated with classgen " ++ tag "version",
    "#",
    "",
    tag "#each modules",
    "from " ++ tag "this" ++ " import *",
    tag "/each"]
  parts := [
    .text "#\n",
    .text "# This file auto-generated with classgen ", .print ["version"], .text "\n",
    .text "#\n",
    .text "\n",
    .each ["modules"] [.text "from ", .print [], .text " import *\n"]]
  reads := read?_of_ascii (by decide +kernel)

def all : List Template := [jsWrapper, jsIndex, pyWrapper, pyPackage]

def named? (name : String) : Option Template := all.find? (·.name = name)

end WrapperGen.Template
