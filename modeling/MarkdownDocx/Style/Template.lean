import MarkdownDocx.Style.Settings
import MarkdownDocx.Style.Table

/-!
The templates: styles and settings that go together.
-/

set_option autoImplicit false

namespace MarkdownDocx.Style

structure Template where
  id : String
  name : String
  description : String
  styles : StyleTable
  settings : Settings

/-- Official documents of the Chinese government. -/
def governmentStyle : StyleKey → TextStyle
  | .title => { font := "宋体", size := .whole 22, bold := true, center := true }
  | .heading1 => { font := "黑体", size := .whole 16, indent := true }
  | .heading2 => { font := "楷体", size := .whole 16, indent := true }
  | .heading3 => { font := "仿宋", size := .whole 16, bold := true, indent := true }
  | .heading4 => { font := "仿宋", size := .whole 16, bold := true, indent := true }
  | .bodyText => { font := "仿宋", size := .whole 16, indent := true }
  | .listItem => { font := "仿宋", size := .whole 16, indent := true }
  | .blockquote => { font := "楷体", size := .whole 16 }
  | .tableHeader => { font := "仿宋", size := .whole 16, bold := true, center := true }
  | .tableCell => { font := "仿宋", size := .whole 16, center := true }
  | .pageFooter => { font := "仿宋", size := .whole 14 }

def government : Template where
  id := "cn-gov"
  name := "公文格式"
  description := "GB/T 9704-2012 中国公文标准"
  styles := { style := governmentStyle }
  settings := {}

def englishStyle : StyleKey → TextStyle
  | .title => { font := "Arial", size := .whole 20, bold := true, center := true }
  | .heading1 => { font := "Arial", size := .whole 16, bold := true }
  | .heading2 => { font := "Arial", size := .whole 14, bold := true }
  | .heading3 => { font := "Arial", size := .whole 12, bold := true }
  | .heading4 => { font := "Arial", size := .whole 12, bold := true, italic := true }
  | .bodyText => { font := "Times New Roman", size := .whole 12 }
  | .listItem => { font := "Times New Roman", size := .whole 12 }
  | .blockquote => { font := "Times New Roman", size := .whole 12, italic := true }
  | .tableHeader => { font := "Arial", size := .whole 11, bold := true, center := true }
  | .tableCell => { font := "Times New Roman", size := .whole 11 }
  | .pageFooter => { font := "Times New Roman", size := .whole 10 }

def english : Template where
  id := "en-standard"
  name := "English Standard"
  description := "Times New Roman body, Arial headings"
  styles := { style := englishStyle }
  settings :=
    { lineSpacing := { rule := .auto, value := 360 }
      pageNumberFormat := .plain
      margins := { header := 720, footer := 720 }
      spacingAfter := 200 }

def templates : List Template := [government, english]

def defaultTemplate : Template := government

def isTemplateName (name : String) : Bool := templates.any fun t => t.id == name

/-- The template with a name; the default one if no name is given. -/
def findTemplate (name : Option String) : Except ConfigError Template :=
  match name with
  | none => .ok defaultTemplate
  | some "" => .ok defaultTemplate
  | some name =>
    match templates.find? fun t => t.id == name with
    | some t => .ok t
    | none => .error (.unknownTemplate name)

end MarkdownDocx.Style
