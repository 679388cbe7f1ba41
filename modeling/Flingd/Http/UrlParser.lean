import Flingd.Base.Bytes
import Flingd.Base.StdMap

/-! `UrlParser.cpp`, the part after the regular expression. -/
namespace Flingd.Http

/-- The fields of `Url` that the servers read. -/
structure Url where
  path : Bytes
  query : Bytes
deriving DecidableEq

namespace UrlParser

/-- A parameter counts only when it splits at `=` into two. -/
def parseQuery (query : Bytes) : StdMap Bytes Bytes :=
  (split 38 query).foldl (fun out kv_str =>
    match split 61 kv_str with
    | [key, value] => out.insert key value
    | _ => out) StdMap.empty

def getValue (kvs : StdMap Bytes Bytes) (key : Bytes) : Bytes :=
  match kvs.scan (key = ·) with
  | some kv => kv.2
  | none => []

end UrlParser
end Flingd.Http
