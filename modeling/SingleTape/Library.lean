import SingleTape.Program.Load

/-!
# Built-in programs

Three descriptions that come with the library: one recognises palindromes over three letters, one
checks sums of binary numbers written with the least significant digit first, and one the parity of
the ones in a word of zeros and ones.
-/

namespace SingleTape.Library

/-- Accepts the words over `a`, `b` and `c` that read the same both ways. -/
def palindromeText : String :=
"states 10
q0
ra
rb
rc
ca
cb
cc
back
accept +
reject -
alphabet 3 a b c
q0 a ra _ R
q0 b rb _ R
q0 c rc _ R
q0 _ accept _ R
ra a ra a R
ra b ra b R
ra c ra c R
ra _ ca _ L
rb a rb a R
rb b rb b R
rb c rb c R
rb _ cb _ L
rc a rc a R
rc b rc b R
rc c rc c R
rc _ cc _ L
ca a back _ L
ca b reject b L
ca c reject c L
ca _ accept _ L
cb b back _ L
cb a reject a L
cb c reject c L
cb _ accept _ L
cc c back _ L
cc a reject a L
cc b reject b L
cc _ accept _ L
back a back a L
back b back b L
back c back c L
back _ q0 _ R
"

/-- Accepts `a#b#c` if the binary numbers `a`, `b` and `c`, least significant digit first, satisfy
a + b = c. -/
def additionText : String :=
"states 28
col0
col1
s2_0
s2_1
s2_2
f2_0
f2_1
f2_2
f2z_0
f2z_1
s3_0
s3_1
s3_2
s3_3
f3_0
f3_1
f3_2
f3_3
f3z_0
f3z_1
b3_0
b3_1
b2_0
b2_1
b1_0
b1_1
accept +
reject -
alphabet 4 0 1 # x
col0 0 s2_0 x R
col0 1 s2_1 x R
col0 # f2z_0 # R
col0 _ reject _ R
col1 0 s2_1 x R
col1 1 s2_2 x R
col1 # f2z_1 # R
col1 _ reject _ R
s2_0 0 s2_0 0 R
s2_0 1 s2_0 1 R
s2_0 # f2_0 # R
s2_0 _ reject _ R
s2_1 0 s2_1 0 R
s2_1 1 s2_1 1 R
s2_1 # f2_1 # R
s2_1 _ reject _ R
s2_2 0 s2_2 0 R
s2_2 1 s2_2 1 R
s2_2 # f2_2 # R
s2_2 _ reject _ R
f2_0 x f2_0 x R
f2_0 0 s3_0 x R
f2_0 1 s3_1 x R
f2_0 # f3_0 # R
f2_0 _ reject _ R
f2_1 x f2_1 x R
f2_1 0 s3_1 x R
f2_1 1 s3_2 x R
f2_1 # f3_1 # R
f2_1 _ reject _ R
f2_2 x f2_2 x R
f2_2 0 s3_2 x R
f2_2 1 s3_3 x R
f2_2 # f3_2 # R
f2_2 _ reject _ R
f2z_0 x f2z_0 x R
f2z_0 0 s3_0 x R
f2z_0 1 s3_1 x R
f2z_0 # f3z_0 # R
f2z_0 _ reject _ R
f2z_1 x f2z_1 x R
f2z_1 0 s3_1 x R
f2z_1 1 s3_2 x R
f2z_1 # f3z_1 # R
f2z_1 _ reject _ R
s3_0 0 s3_0 0 R
s3_0 1 s3_0 1 R
s3_0 # f3_0 # R
s3_0 _ reject _ R
s3_1 0 s3_1 0 R
s3_1 1 s3_1 1 R
s3_1 # f3_1 # R
s3_1 _ reject _ R
s3_2 0 s3_2 0 R
s3_2 1 s3_2 1 R
s3_2 # f3_2 # R
s3_2 _ reject _ R
s3_3 0 s3_3 0 R
s3_3 1 s3_3 1 R
s3_3 # f3_3 # R
s3_3 _ reject _ R
f3_0 x f3_0 x R
f3_0 0 b3_0 x L
f3_0 1 reject 1 L
f3_0 # reject # L
f3_0 _ b3_0 _ L
f3_1 x f3_1 x R
f3_1 1 b3_0 x L
f3_1 0 reject 0 L
f3_1 # reject # L
f3_1 _ reject _ L
f3_2 x f3_2 x R
f3_2 0 b3_1 x L
f3_2 1 reject 1 L
f3_2 # reject # L
f3_2 _ b3_1 _ L
f3_3 x f3_3 x R
f3_3 1 b3_1 x L
f3_3 0 reject 0 L
f3_3 # reject # L
f3_3 _ reject _ L
f3z_0 x f3z_0 x R
f3z_0 0 b3_0 x L
f3z_0 1 reject 1 L
f3z_0 # reject # L
f3z_0 _ accept _ L
f3z_1 x f3z_1 x R
f3z_1 1 b3_0 x L
f3z_1 0 reject 0 L
f3z_1 # reject # L
f3z_1 _ reject _ L
b3_0 0 b3_0 0 L
b3_0 1 b3_0 1 L
b3_0 x b3_0 x L
b3_0 # b2_0 # L
b2_0 0 b2_0 0 L
b2_0 1 b2_0 1 L
b2_0 x b2_0 x L
b2_0 # b1_0 # L
b1_0 0 b1_0 0 L
b1_0 1 b1_0 1 L
b1_0 x col0 x R
b1_0 # col0 # L
b3_1 0 b3_1 0 L
b3_1 1 b3_1 1 L
b3_1 x b3_1 x L
b3_1 # b2_1 # L
b2_1 0 b2_1 0 L
b2_1 1 b2_1 1 L
b2_1 x b2_1 x L
b2_1 # b1_1 # L
b1_1 0 b1_1 0 L
b1_1 1 b1_1 1 L
b1_1 x col1 x R
b1_1 # col1 # L
"

/-- Accepts the words over `0` and `1` with an even number of ones. -/
def parityText : String :=
"states 4
even
odd
accept +
reject -
alphabet 2 0 1
even 0 even 0 R
even 1 odd 1 R
even _ accept _ R
odd 0 odd 0 R
odd 1 even 1 R
odd _ reject _ R
"

def texts : List (String × String) :=
  [("palindrome", palindromeText), ("binary-addition", additionText), ("parity", parityText)]

def programs : List Program :=
  texts.filterMap fun (name, text) => (Program.load name text {}).toOption.map (·.1)

def names : List String := programs.map (·.name)

def programAt (index : Nat) : Except ProgramError Program :=
  programs[index]?.elim (.error (.noProgramAt index)) .ok

def programNamed (name : String) : Except ProgramError Program :=
  (programs.find? (·.name = name)).elim (.error (.noProgramNamed name)) .ok

structure Info where
  index : Nat
  name : String
  alphabet : List Symbol
  stateCount : Nat
  transitionCount : Nat
deriving DecidableEq

def info (index : Nat) : Except ProgramError Info := do
  let p ← programAt index
  return { index, name := p.name, alphabet := p.alphabet, stateCount := p.stateCount,
           transitionCount := p.transitionCount }

end SingleTape.Library
