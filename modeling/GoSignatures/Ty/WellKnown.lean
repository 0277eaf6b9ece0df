/-!
# Well-known imported types

The defined scalar types of the standard library, with the names of their underlying kinds. Every
other imported type stays opaque unless the configuration names it.
-/

namespace GoSignatures.WellKnown

/-- Import path, type name and underlying kind of each well-known type. -/
def types : List (String × String × String) :=
  [("time", "Duration", "int64"),
    ("time", "Month", "int"),
    ("time", "Weekday", "int"),
    ("os", "FileMode", "uint32"),
    ("io/fs", "FileMode", "uint32"),
    ("reflect", "Kind", "uint"),
    ("reflect", "ChanDir", "int"),
    ("syscall", "Signal", "int"),
    ("net/http", "ConnState", "int"),
    ("math/big", "Word", "uint"),
    ("math/big", "Accuracy", "int8"),
    ("math/big", "RoundingMode", "uint8"),
    ("log/slog", "Level", "int"),
    ("go/token", "Pos", "int"),
    ("go/token", "Token", "int"),
    ("crypto", "Hash", "uint"),
    ("encoding/json", "Number", "string"),
    ("html/template", "HTML", "string"),
    ("html/template", "JS", "string"),
    ("html/template", "URL", "string")]

/-- The name of the underlying kind of a well-known type. -/
def kindName? (path name : String) : Option String :=
  (types.find? fun t => t.1 == path && t.2.1 == name).map fun t => t.2.2

end GoSignatures.WellKnown
