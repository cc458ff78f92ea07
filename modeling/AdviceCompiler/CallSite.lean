import AdviceCompiler.Advice

/-!
# Call sites

A call site collects the advices of one owner class, the marker interface its
units implement and the helper classes they use.
-/

namespace AdviceCompiler

structure CallSite where
  owner : JavaType
  /-- The marker interface of the call site's units. -/
  spi : JavaType
  /-- Helper classes without repeats, in order of registration. -/
  helpers : List JavaType
  /-- Advices in order of declaration. -/
  advices : List Advice
  deriving DecidableEq

namespace CallSite

/-- The marker interface of a call site that names none. -/
def defaultSpi : String := "csi.CallSiteAdvice"

/-- A call site without advices.  Its owner is its first helper. -/
def ofOwner (owner : JavaType) : CallSite :=
  { owner, spi := .object defaultSpi, helpers := [owner], advices := [] }

def withSpi (site : CallSite) (spi : JavaType) : CallSite :=
  { site with spi }

def usesDefaultSpi (site : CallSite) : Bool :=
  site.spi = .object defaultSpi

def hasHelper (site : CallSite) (helper : JavaType) : Bool :=
  site.helpers.contains helper

/-- Registers a helper after the others, unless it is there already. -/
def addHelper (site : CallSite) (helper : JavaType) : CallSite :=
  if site.hasHelper helper then site
  else { site with helpers := site.helpers ++ [helper] }

def addAdvice (site : CallSite) (advice : Advice) : CallSite :=
  { site with advices := site.advices ++ [advice] }

/-- The name of the advice declared at this index. -/
def adviceLabel (index : Nat) : String :=
  "advice" ++ toString index

end CallSite

end AdviceCompiler
