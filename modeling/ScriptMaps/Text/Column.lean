
namespace ScriptMaps.Text

def spaces (n : Nat) : String :=
  String.ofList (List.replicate n ' ')

-- A longer text stays whole.
def flushLeft (width : Nat) (text : String) : String :=
  text ++ spaces (width - text.length)

def flushRight (width : Nat) (text : String) : String :=
  spaces (width - text.length) ++ text

end ScriptMaps.Text
