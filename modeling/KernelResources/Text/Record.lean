namespace KernelResources.Text

def fieldText (field : String × String) : String := field.1 ++ ": " ++ field.2

def fieldTexts (fields : List (String × String)) : String :=
  ", ".intercalate (fields.map fieldText)

def record (name : String) (fields : List (String × String)) : String :=
  if fields.isEmpty then name else name ++ " \x7b " ++ fieldTexts fields ++ " \x7d"

def openRecord (name : String) (fields : List (String × String)) : String :=
  name ++ " \x7b " ++ fieldTexts fields ++ ", .. \x7d"

def boolText (b : Bool) : String := if b then "true" else "false"

end KernelResources.Text
