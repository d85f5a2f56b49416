/-
The platforms that templates are compiled for.
-/
namespace TemplateCompiler

/-- A platform with its own dialect of templates. -/
inductive Target
  | web
  | weex
  | wx
  | alipay
  | baidu
  deriving DecidableEq, Inhabited

namespace Target

/-- Every platform. -/
def all : List Target := [web, weex, wx, alipay, baidu]

/-- The platform's identifier. -/
def name : Target → String
  | web => "web"
  | weex => "weex"
  | wx => "wx"
  | alipay => "alipay"
  | baidu => "baidu"

/-- The platform with this identifier. -/
def ofName? (name : String) : Option Target := all.find? fun target => target.name == name

theorem mem_all (target : Target) : target ∈ all := by
  cases target <;> decide

end Target

end TemplateCompiler
