namespace GrammarKit

/-- A finite alphabet of token kinds. The order of `all` is the order in which
    kinds are listed, and names tell kinds apart. -/
class TokenKind (K : Type) [DecidableEq K] where
  all : List K
  name : K → String
  mem_all : ∀ kind, kind ∈ all
  nodup_all : all.Nodup
  name_injective : ∀ a b, name a = name b → a = b

namespace TokenKind

variable {K : Type} [DecidableEq K] [TokenKind K]

/-- The kind called `text`, if the alphabet has one. -/
def ofName? (text : String) : Option K :=
  all.find? fun kind => name kind == text

theorem name_of_ofName? {text : String} {kind : K} (h : ofName? text = some kind) :
    name kind = text := by
  simpa using List.find?_some h

end TokenKind

/-- The distinct names of a token alphabet that is only known at run time. -/
structure Alphabet where
  names : List String
  nodup : names.Nodup

/-- The kinds of a run-time alphabet are the places of its list of names. -/
structure Kind (alphabet : Alphabet) where
  rank : Fin alphabet.names.length
  deriving DecidableEq

namespace Kind

variable {alphabet : Alphabet}

def all (alphabet : Alphabet) : List (Kind alphabet) :=
  (List.finRange alphabet.names.length).map Kind.mk

def name (kind : Kind alphabet) : String :=
  alphabet.names[kind.rank]

theorem name_injective {a b : Kind alphabet} (h : a.name = b.name) : a = b := by
  cases a; cases b
  exact congrArg Kind.mk (Fin.ext ((List.getElem_inj alphabet.nodup).1 h))

instance : TokenKind (Kind alphabet) where
  all := all alphabet
  name := name
  mem_all kind := List.mem_map.2 ⟨kind.rank, List.mem_finRange kind.rank, rfl⟩
  nodup_all := by
    refine List.Pairwise.map Kind.mk (fun a b hne heq => hne ?_) (List.nodup_finRange _)
    exact congrArg rank heq
  name_injective _ _ := name_injective

end Kind

end GrammarKit
