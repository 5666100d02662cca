/-!
The texts that explain the command.
-/

set_option autoImplicit false

namespace MarkdownDocx.Command

def programName : String := "formaldoc"

def versionText : String := programName ++ " 0.1.0\n"

def usage : String := "usage: formaldoc [-h] [-o OUTPUT] [-t TEMPLATE] [-s STYLES] [--stdin]
                 [--clean] [--list-templates] [--init-styles] [-v]
                 [input]
"

def helpBody : String := "
Convert Markdown to formal Word documents (.docx)

positional arguments:
  input                 Input Markdown file path

options:
  -h, --help            show this help message and exit
  -o OUTPUT, --output OUTPUT
                        Output Word file path (default: input with .docx
                        extension)
  -t TEMPLATE, --template TEMPLATE
                        Document template (default: cn-gov)
  -s STYLES, --styles STYLES
                        Style override JSON file
  --stdin               Read markdown from stdin (requires -o)
  --clean               Convert quotes, remove emphasis markers and spaces
                        between Chinese characters first
  --list-templates      List available templates
  --init-styles         Write the template styles to the -s file
  -v, --version         Show version

Examples:
  formaldoc document.md                       Convert to document.docx
  formaldoc document.md -o report.docx        Specify output file
  formaldoc document.md -t en-standard        Use the English template
  formaldoc document.md -s custom.json        Override styles from a JSON file
  cat doc.md | formaldoc --stdin -o out.docx  Read markdown from stdin
  formaldoc --init-styles -s custom.json      Write the template styles to a file

Style keys: title, heading1, heading2, heading3, heading4, bodyText, listItem, blockquote, tableHeader, tableCell, pageFooter
Style fields: font, size (points or 三号/小四...), bold, italic, center, indent, englishFont
        
"

def help : String := usage ++ helpBody

end MarkdownDocx.Command
