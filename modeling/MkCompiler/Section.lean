/-!
# Sections of the output

The output is collected in four sections that grow independently and are put together in the
order of their numbers.
-/

namespace MkCompiler

/-- A section of the output. A number that belongs to no section can be selected, but nothing can
be written to it or read from it. -/
inductive Section where
  | header
  | entryDeclaration
  | entryBody
  | functions
  | unassigned (code : Int)
  deriving DecidableEq, Repr, Inhabited

namespace Section

def ofCode (n : Int) : Section :=
  if n = 0 then header
  else if n = 1 then entryDeclaration
  else if n = 2 then entryBody
  else if n = 3 then functions
  else unassigned n

def code : Section → Int
  | header => 0
  | entryDeclaration => 1
  | entryBody => 2
  | functions => 3
  | unassigned n => n

def name? : Section → Option String
  | header => some "header"
  | entryDeclaration => some "entry-declaration"
  | entryBody => some "entry-body"
  | functions => some "functions"
  | unassigned _ => none

/-- Whether the section exists. -/
def isAssigned : Section → Bool
  | unassigned _ => false
  | _ => true

@[simp]
theorem code_ofCode (n : Int) : (ofCode n).code = n := by
  unfold ofCode
  split <;> (try split) <;> (try split) <;> (try split) <;> simp_all [code]

end Section

end MkCompiler
