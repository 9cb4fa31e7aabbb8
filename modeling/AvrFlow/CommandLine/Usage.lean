namespace AvrFlow.CommandLine

def programName : String := "avr-cfg"

def usage : String :=
  "usage: avr-cfg [-h] -i INPUT -o OUTPUT [-s START] [-d DPI]\n" ++
  "               [-f \x7bauto,elf,ihex,listing\x7d] [--objdump OBJDUMP] [-v]\n"

def helpText : String :=
  usage ++
  "\n" ++
  "Draw the control flow graph of an AVR program\n" ++
  "\n" ++
  "options:\n" ++
  "  -h, --help            show this help message and exit\n" ++
  "  -i INPUT, --input INPUT\n" ++
  "                        input file (ELF, Intel HEX or avr-objdump listing)\n" ++
  "  -o OUTPUT, --output OUTPUT\n" ++
  "                        CFG output dot file\n" ++
  "  -s START, --start START\n" ++
  "                        start offset (defaults to 0x0)\n" ++
  "  -d DPI, --dpi DPI     DPI of the rendered graph\n" ++
  "  -f \x7bauto,elf,ihex,listing\x7d, --format \x7bauto,elf,ihex,listing\x7d\n" ++
  "                        input format\n" ++
  "  --objdump OBJDUMP     objdump executable\n" ++
  "  -v, --verbose         -v for progress, -vv for details\n"

end AvrFlow.CommandLine
