import TemplateCompiler.Failure
import TemplateCompiler.Json.Basic

/-!
# Tags of the web platform

The runtime creates reserved tags natively; any other tag may name a component.
-/

namespace TemplateCompiler.Tag

/-- Elements of HTML. -/
def html : List String :=
  ["html", "body", "base", "head", "link", "meta", "style", "title",
  "address", "article", "aside", "footer", "header",
  "h1", "h2", "h3", "h4", "h5", "h6", "hgroup", "nav", "section",
  "div", "dd", "dl", "dt", "figcaption", "figure", "picture", "hr",
  "img", "li", "main", "ol", "p", "pre", "ul",
  "a", "b", "abbr", "bdi", "bdo", "br", "cite", "code", "data", "dfn",
  "em", "i", "kbd", "mark", "q", "rp", "rt", "rtc", "ruby", "s", "samp",
  "small", "span", "strong", "sub", "sup", "time", "u", "var", "wbr",
  "area", "audio", "map", "track", "video", "embed", "object", "param",
  "source", "canvas", "script", "noscript", "iframe",
  "del", "ins",
  "caption", "col", "colgroup", "table", "thead", "tbody", "tfoot",
  "td", "th", "tr",
  "button", "datalist", "fieldset", "form", "input", "label", "legend",
  "meter", "optgroup", "option", "output", "progress", "select",
  "textarea",
  "details", "dialog", "menu", "menuitem", "summary", "content",
  "element", "shadow", "template", "blockquote"]

/-- Elements of SVG, in lower case. -/
def svg : List String :=
  ["svg", "animate", "circle", "clippath", "cursor", "defs", "desc",
  "ellipse", "filter", "font-face", "foreignobject", "g", "glyph",
  "image", "line", "marker", "mask", "missing-glyph", "path", "pattern",
  "polygon", "polyline", "rect", "switch", "symbol", "text", "textpath",
  "tspan", "use", "view"]

/-- Lowers a capital letter. Besides the basic capitals only the Kelvin sign has a basic letter as
its lower form. -/
def lowerChar (c : Char) : Char :=
  if c = '\u212a' then 'k' else c.toLower

def lower (tag : String) : String :=
  String.ofList (tag.toList.map lowerChar)

/-- HTML tags as they are written, SVG tags in any case. -/
def isReserved (tag : String) : Bool :=
  html.contains tag || svg.contains (lower tag)

/-- Looks a tag up. Only text can be reserved or not. -/
def check (reserved : String → Bool) : Json → Except Failure Bool
  | .string tag => .ok (reserved tag)
  | .array _ | .object _ => .error .tagCompound
  | _ => .error .tagNotText

/-- Tags that the compiler itself handles. -/
def builtIn : List String :=
  ["slot", "component"]

def isBuiltIn (tag : String) : Bool :=
  builtIn.contains tag

end TemplateCompiler.Tag
