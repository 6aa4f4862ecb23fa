import GrammarKit.Automaton

namespace GrammarKit.Automaton

/-- A test of matched text. Lengths count bytes. -/
inductive Condition where
  | maxLength (limit : Nat)
  | minLength (limit : Nat)
  | equals (text : String)
  | startsWith (text : String)
  | endsWith (text : String)
  | lacks (text : String)
  deriving DecidableEq, Repr

/-- Whether `part` occurs in `text` as a run of neighbouring characters. -/
def occursIn (part : List Char) : List Char → Bool
  | [] => part.isEmpty
  | c :: text => part.isPrefixOf (c :: text) || occursIn part text

def Condition.holds : Condition → Guard
  | maxLength limit, matched => byteSize matched ≤ limit
  | minLength limit, matched => limit ≤ byteSize matched
  | equals text, matched => matched = text.toList
  | startsWith text, matched => text.toList.isPrefixOf matched
  | endsWith text, matched => text.toList.isSuffixOf matched
  | lacks text, matched => !occursIn text.toList matched

/-- What a callback does with a token it matches. -/
inductive Adjustment (K : Type) where
  | retag (text : String) (kind : K)
  | reject (text : String)
  | prepend (text : String)
  deriving Repr

/-- A new kind or a rejection for tokens that cover exactly a given text; a text
    put in front of the value, which also discards the token. -/
def Adjustment.apply {K : Type} : Adjustment K → Callback K
  | retag text kind,
      token => .ok (some (if token.span = text then { token with kind := some kind } else token))
  | reject text, token => .ok (if token.span = text then none else some token)
  | prepend text, token => .ok (some { token with value := text ++ token.span, discarded := true })

end GrammarKit.Automaton
