import ModuleSource.Statement.Decode

/-! What the generated modules have in common: the frame around a list, and the text of words. -/

namespace ModuleSource.Layout

/-- The lines that every generated module starts with. -/
def heading : String :=
  "# -*- coding: utf-8 -*-\n" ++
  "from header_common import *\n" ++
  "from header_operations import *\n" ++
  "from module_constants import *\n"

/-- A module that defines one list, given the further headers it needs and the text of its records.
-/
def frame (headers : List String) (list : String) (records : List String) : String :=
  heading ++ String.join (headers.map fun header => "from " ++ header ++ " import *\n") ++
    "\n" ++ list ++ " = [\n" ++ String.join records ++ "]\n"

def quoted (s : String) : String := "\"" ++ s ++ "\""

def commaList (items : List String) : String := String.intercalate ", " items

/-- Text for display is stored with underscores for its spaces. -/
def spaced (word : String) : String :=
  String.ofList (word.toList.map fun c => if c = '_' then ' ' else c)

end ModuleSource.Layout
